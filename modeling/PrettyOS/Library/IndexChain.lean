import Mathlib

/-!
Contract: chains threaded through an array of successors.
-/

namespace PrettyOS.Library.IndexChain

open Function List

variable {α : Type*} {next : α → α} {stop head entry : α} {chain : List α}

def Linked (next : α → α) (stop : α) : α → List α → Prop
  | head, [] => head = stop
  | head, entry :: rest => head = entry ∧ Linked next stop (next entry) rest

lemma linked_append {front back : List α} : Linked next stop head (front ++ back) ↔
    ∃ middle, Linked next middle head front ∧ Linked next stop middle back := by
  induction front generalizing head with
  | nil =>
    constructor
    · intro link
      exact ⟨head, rfl, link⟩
    · rintro ⟨middle, rfl, link⟩
      exact link
  | cons entry rest ih =>
    rw [cons_append, Linked, ih]
    constructor
    · rintro ⟨first, middle, front, back⟩
      exact ⟨middle, ⟨first, front⟩, back⟩
    · rintro ⟨middle, ⟨first, front⟩, back⟩
      exact ⟨first, middle, front, back⟩

lemma Linked.unique {other : List α} (link : Linked next stop head chain)
    (alsoOther : Linked next stop head other) (notStop : stop ∉ chain)
    (otherNotStop : stop ∉ other) : chain = other := by
  induction chain generalizing head other with
  | nil =>
    cases other with
    | nil => rfl
    | cons entry rest =>
      have first := Eq.trans (Eq.symm link) alsoOther.1
      exact absurd (first ▸ mem_cons_self) otherNotStop
  | cons entry rest ih =>
    cases other with
    | nil =>
      have first := Eq.trans (Eq.symm alsoOther) link.1
      exact absurd (first ▸ mem_cons_self) notStop
    | cons entry' rest' =>
      obtain rfl : entry = entry' := link.1.symm.trans alsoOther.1
      rw [ih link.2 alsoOther.2
        (fun mem => notStop (mem_cons_of_mem _ mem))
        (fun mem => otherNotStop (mem_cons_of_mem _ mem))]

lemma linked_headD (link : Linked next stop head chain) : chain.headD stop = head := by
  cases chain with
  | nil => exact Eq.symm link
  | cons entry rest => exact link.1.symm

lemma Linked.congr {other : α → α} (agree : ∀ entry ∈ chain, other entry = next entry)
    (link : Linked next stop head chain) : Linked other stop head chain := by
  induction chain generalizing head with
  | nil => exact link
  | cons entry rest ih =>
    refine ⟨link.1, ?_⟩
    rw [agree entry mem_cons_self]
    apply ih
    · intro later mem
      exact agree later (mem_cons_of_mem _ mem)
    · exact link.2

lemma Linked.push [DecidableEq α] (link : Linked next stop head chain) (absent : entry ∉ chain) :
    Linked (update next entry head) stop entry (entry :: chain) := by
  refine ⟨rfl, ?_⟩
  rw [update_self]
  apply link.congr
  intro other mem
  apply update_of_ne
  intro same
  exact absent (same ▸ mem)

lemma Linked.redirect [DecidableEq α] {last new : α}
    (link : Linked next stop head (chain ++ [last])) (absent : last ∉ chain) :
    Linked (update next last new) new head (chain ++ [last]) := by
  obtain ⟨middle, front, atLast, -⟩ := linked_append.mp link
  refine linked_append.mpr ⟨middle, ?_, atLast, update_self _ _ _⟩
  apply front.congr
  intro entry mem
  apply update_of_ne
  intro same
  exact absent (same ▸ mem)

lemma Linked.of_path {front : List α} {middle : α} (link : Linked next stop head chain)
    (path : Linked next middle head front) (notStop : stop ∉ front) :
    ∃ rest, chain = front ++ rest ∧ Linked next stop middle rest := by
  induction front generalizing head chain with
  | nil => exact ⟨chain, rfl, Eq.symm path ▸ link⟩
  | cons entry front ih =>
    rw [mem_cons, not_or] at notStop
    cases chain with
    | nil => exact absurd (Eq.trans (Eq.symm link) path.1) notStop.1
    | cons entry' chain =>
      obtain rfl : entry' = entry := link.1.symm.trans path.1
      obtain ⟨rest, rfl, linkRest⟩ := ih link.2 path.2 notStop.2
      exact ⟨rest, rfl, linkRest⟩

lemma Linked.not_cycle {cycle : List α} (link : Linked next stop head chain)
    (notStop : stop ∉ chain) (isCycle : Linked next head head cycle) (cycleNotStop : stop ∉ cycle) :
    cycle = [] := by
  obtain ⟨rest, isChain, linkRest⟩ := link.of_path isCycle cycleNotStop
  have restNotStop : stop ∉ rest :=
    fun mem => notStop (isChain ▸ mem_append_right _ mem)
  have again := link.unique linkRest notStop restNotStop
  rw [again] at isChain
  exact self_eq_append_left.mp isChain

lemma Linked.skip [DecidableEq α] {cell : α}
    (link : Linked next stop (next cell) (entry :: chain)) (absent : cell ∉ chain) :
    Linked (update next cell (next entry)) stop
      (update next cell (next entry) cell) chain := by
  rw [update_self]
  apply link.2.congr
  intro other mem
  exact update_of_ne (ne_of_mem_of_not_mem mem absent) _ _

lemma Linked.insert [DecidableEq α] {cell new : α} {front back : List α}
    (link : Linked next stop (next cell) (front ++ back)) (nodup : (cell :: (front ++ back)).Nodup)
    (fresh : new ∉ cell :: (front ++ back)) {next' : α → α}
    (isNext : next' = update (update next new (back.headD stop)) (front.getLastD cell) new) :
    Linked next' stop (next' cell) (front ++ new :: back) := by
  induction front generalizing cell with
  | nil =>
    rw [nil_append] at link nodup fresh
    rw [mem_cons, not_or] at fresh
    have isCell : next' cell = new := by
      rw [isNext]
      exact update_self _ _ _
    have isNew : next' new = next cell := by
      rw [isNext, ← linked_headD link]
      exact (update_of_ne fresh.1 _ _).trans (update_self _ _ _)
    refine ⟨isCell, ?_⟩
    rw [isNew]
    apply link.congr
    intro entry mem
    rw [isNext]
    have notCell := ne_of_mem_of_not_mem mem (nodup_cons.mp nodup).1
    have notNew := ne_of_mem_of_not_mem mem fresh.2
    exact (update_of_ne notCell _ _).trans (update_of_ne notNew _ _)
  | cons entry front ih =>
    rw [getLastD_cons] at isNext
    obtain ⟨notAgain, nodupRest⟩ := nodup_cons.mp nodup
    rw [mem_cons, not_or] at fresh
    have notLast : cell ≠ front.getLastD entry := by
      intro same
      have mem : front.getLastD entry ∈ entry :: front := getLastD_mem_cons
      exact notAgain (same ▸ mem_append_left back mem)
    have isCell : next' cell = next cell := by
      rw [isNext, update_of_ne notLast, update_of_ne (Ne.symm fresh.1)]
    refine ⟨isCell.trans link.1, ih link.2 nodupRest fresh.2 isNext⟩

lemma linked_range' {next : Nat → Nat} {stop : Nat} (count start : Nat)
    (counts : ∀ entry, start ≤ entry → entry + 1 < start + count → next entry = entry + 1)
    (last : ∀ entry, start ≤ entry → entry + 1 = start + count → next entry = stop)
    (ne : 0 < count) : Linked next stop start (List.range' start count) := by
  induction count generalizing start with
  | zero => omega
  | succ count ih =>
    rw [range'_succ]
    refine ⟨rfl, ?_⟩
    by_cases more : 0 < count
    · rw [counts start le_rfl (by omega)]
      apply ih
      · intro entry low high
        exact counts entry (by omega) (by omega)
      · intro entry low high
        exact last entry (by omega) (by omega)
      · exact more
    · obtain rfl : count = 0 := by omega
      exact last start le_rfl rfl

def Covers (next : Nat → Nat) (stop head : Nat) (used : List Nat) (count : Nat) : Prop :=
  ∃ unused, Linked next stop head unused ∧ (unused ++ used).Perm (List.range count)

namespace Covers

variable {next : Nat → Nat} {stop head index count : Nat} {used rest : List Nat}

section

variable (covers : Covers next stop head used count)
include covers

lemma used_lt (mem : index ∈ used) : index < count := by
  obtain ⟨_, -, parts⟩ := covers
  exact mem_range.mp (parts.mem_iff.mp (mem_append_right _ mem))

lemma length_used_le : used.length ≤ count := by
  obtain ⟨_, -, parts⟩ := covers
  have lengths := parts.length_eq
  rw [length_append, length_range] at lengths
  omega

lemma length_used_of_stop (atStop : head = stop) (beyond : count ≤ stop) : used.length = count := by
  obtain ⟨unused, link, parts⟩ := covers
  cases unused with
  | nil => exact parts.length_eq.trans length_range
  | cons first rest =>
    have lt := mem_range.mp (parts.mem_iff.mp (mem_append_left _ mem_cons_self))
    have isFirst := link.1
    omega

lemma take (notStop : head ≠ stop) :
    head < count ∧ head ∉ used ∧ Covers next stop (next head) (head :: used) count := by
  obtain ⟨unused, link, parts⟩ := covers
  cases unused with
  | nil => exact absurd link notStop
  | cons first rest =>
    obtain rfl : head = first := link.1
    have lt := mem_range.mp (parts.mem_iff.mp (mem_append_left _ mem_cons_self))
    have nodup := parts.nodup_iff.mpr nodup_range
    have apart := disjoint_of_nodup_append nodup
    exact ⟨lt, apart mem_cons_self, rest, link.2, perm_middle.trans parts⟩

lemma give (split : used.Perm (index :: rest)) :
    Covers (update next index head) stop index rest count := by
  obtain ⟨unused, link, parts⟩ := covers
  have parts' := (split.append_left unused).symm.trans parts
  have nodup := parts'.nodup_iff.mpr nodup_range
  have apart := disjoint_of_nodup_append nodup
  have absent : index ∉ unused := fun onChain => apart onChain mem_cons_self
  exact ⟨index :: unused, link.push absent, perm_middle.symm.trans parts'⟩

end

end Covers

lemma covers_counting {next : Nat → Nat} {stop count : Nat} (ne : 0 < count)
    (counts : ∀ entry, entry + 1 < count → next entry = entry + 1)
    (last : ∀ entry, entry + 1 = count → next entry = stop) : Covers next stop 0 [] count := by
  refine ⟨List.range count, ?_, by rw [append_nil]⟩
  rw [range_eq_range']
  apply linked_range'
  · intro entry _ notLast
    exact counts entry (by omega)
  · intro entry _ isLast
    exact last entry (by omega)
  · exact ne

end PrettyOS.Library.IndexChain
