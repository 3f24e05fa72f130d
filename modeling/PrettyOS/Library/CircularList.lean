import Mathlib.Data.List.Nodup
import Mathlib.Tactic.Common

/-!
Contract: circular doubly linked lists threaded through two maps of links, with a header node
that is not itself listed.

The links of the nodes outside the list may hold anything.
-/

namespace PrettyOS.Library

open Function List

variable {α : Type*} {next prev next' prev' : α → α} {first last header node : α}
  {front back l : List α}

def Linked (next prev : α → α) : α → List α → α → Prop
  | first, [], last => next first = last ∧ prev last = first
  | first, node :: rest, last =>
      next first = node ∧ prev node = first ∧ Linked next prev node rest last

namespace Linked

lemma congr (link : Linked next prev first l last)
    (eqNext : ∀ node ∈ first :: l, next' node = next node)
    (eqPrev : ∀ node ∈ last :: l, prev' node = prev node) : Linked next' prev' first l last := by
  induction l generalizing first with
  | nil =>
    exact ⟨(eqNext first mem_cons_self).trans link.1, (eqPrev last mem_cons_self).trans link.2⟩
  | cons node rest ih =>
    rw [forall_mem_cons] at eqNext eqPrev
    have samePrevRest := forall_mem_cons.mp eqPrev.2
    refine ⟨eqNext.1.trans link.1, samePrevRest.1.trans link.2.1, ?_⟩
    apply ih link.2.2 eqNext.2
    exact forall_mem_cons.mpr ⟨eqPrev.1, samePrevRest.2⟩

lemma next_first (link : Linked next prev first l last) : next first = l.headD last := by
  cases l with
  | nil => exact link.1
  | cons node rest => exact link.1

lemma prev_place (link : Linked next prev first (front ++ back) last) :
    prev (back.headD last) = front.getLastD first := by
  induction front generalizing first with
  | nil =>
    cases back with
    | nil => exact link.2
    | cons node rest => exact link.2.1
  | cons node rest ih =>
    rw [getLastD_cons]
    exact ih link.2.2

lemma next_place (link : Linked next prev first (front ++ node :: back) last) :
    next node = back.headD last := by
  induction front generalizing first with
  | nil => exact link.2.2.next_first
  | cons other rest ih => exact ih link.2.2

lemma snoc {behind : α} (link : Linked next prev first l last) (isNext : next last = behind)
    (isPrev : prev behind = last) : Linked next prev first (l ++ [last]) behind := by
  induction l generalizing first with
  | nil => exact ⟨link.1, link.2, isNext, isPrev⟩
  | cons node rest ih => exact ⟨link.1, link.2.1, ih link.2.2⟩

lemma getLastD_mem : front.getLastD first ∈ first :: front := by
  rw [getLastD_eq_getLast?]
  cases isLast : front.getLast? with
  | none => exact mem_cons_self
  | some node => exact mem_cons_of_mem _ (mem_of_getLast? isLast)

lemma headD_mem : back.headD last ∈ last :: back := by
  cases back with
  | nil => exact mem_cons_self
  | cons node rest => exact mem_cons_of_mem _ mem_cons_self

variable [DecidableEq α]

lemma insert (link : Linked next prev first (front ++ back) last)
    (nodup : (first :: (front ++ back)).Nodup) (closed : last ∉ front ++ back)
    (fresh : node ∉ first :: (front ++ back)) (notLast : node ≠ last) :
    Linked
      (update (update next node (back.headD last)) (prev (back.headD last)) node)
      (update (update prev node (prev (back.headD last))) (back.headD last) node)
      first (front ++ node :: back) last := by
  have isPrev := link.prev_place
  have notPlace : node ≠ back.headD last := by
    intro same
    rcases mem_cons.mp (same ▸ headD_mem) with isLast | inBack
    · exact notLast isLast
    · exact fresh (mem_cons_of_mem _ (mem_append_right _ inBack))
  induction front generalizing first with
  | nil =>
    have notFirst : node ≠ first := fun same => fresh (same ▸ mem_cons_self)
    rw [show prev (back.headD last) = first from isPrev]
    refine ⟨update_self _ _ _, ?_, ?_⟩
    · rw [update_of_ne notPlace, update_self]
    -- behind the new node only the way back from the place has changed
    cases back with
    | nil =>
      refine ⟨?_, update_self _ _ _⟩
      rw [update_of_ne notFirst, update_self]
      rfl
    | cons place rest =>
      have off := nodup_cons.mp nodup
      refine ⟨?_, update_self _ _ _, ?_⟩
      · rw [update_of_ne notFirst, update_self]
        rfl
      apply link.2.2.congr
      · intro other mem
        have notNode : other ≠ node := fun same =>
          fresh (same ▸ mem_cons_of_mem _ mem)
        have notFirst : other ≠ first := fun same => off.1 (same ▸ mem)
        rw [update_of_ne notFirst, update_of_ne notNode]
      intro other mem
      rcases mem_cons.mp mem with rfl | later
      · have away : other ≠ place := fun same => closed (same ▸ mem_cons_self)
        exact (update_of_ne away _ _).trans
          (update_of_ne notLast.symm _ _)
      have away : other ≠ place := fun same =>
        (nodup_cons.mp off.2).1 (same ▸ later)
      have notNode : other ≠ node := fun same =>
        fresh (same ▸ mem_cons_of_mem _ (mem_cons_of_mem _ later))
      exact (update_of_ne away _ _).trans
        (update_of_ne notNode _ _)
  | cons second rest ih =>
    obtain ⟨off, nodupRest⟩ := nodup_cons.mp nodup
    have freshRest := not_or.mp (fun mem => fresh (mem_cons.mpr mem))
    rw [getLastD_cons] at isPrev
    refine ⟨?_, ?_, ?_⟩
    · have notPrev : first ≠ prev (back.headD last) := by
        intro same
        rw [isPrev] at same
        have mem := same ▸ getLastD_mem
        exact off (mem_append_left back mem)
      rw [update_of_ne notPrev, update_of_ne (Ne.symm freshRest.1)]
      exact link.1
    · have notPlace : second ≠ back.headD last := by
        intro same
        rcases mem_cons.mp (same ▸ headD_mem) with isLast | inBack
        · exact closed (isLast ▸ mem_cons_self)
        · exact (nodup_cons.mp nodupRest).1 (mem_append_right _ inBack)
      have notNode : second ≠ node := fun same => freshRest.2 (same ▸ mem_cons_self)
      rw [update_of_ne notPlace, update_of_ne notNode]
      exact link.2.1
    · apply ih link.2.2 nodupRest _ freshRest.2 isPrev
      exact fun mem => closed (mem_cons_of_mem _ mem)

lemma erase (link : Linked next prev first (front ++ node :: back) last)
    (nodup : (first :: (front ++ node :: back)).Nodup) (closed : last ∉ front ++ node :: back) :
    Linked (update next (prev node) (next node))
      (update prev (next node) (prev node)) first (front ++ back) last := by
  have isPrev : prev node = front.getLastD first := link.prev_place
  have isNext := link.next_place
  induction front generalizing first with
  | nil =>
    obtain ⟨off, nodupRest⟩ := nodup_cons.mp nodup
    rw [isNext, show prev node = first from isPrev]
    cases back with
    | nil => exact ⟨update_self _ _ _, update_self _ _ _⟩
    | cons place rest =>
      refine ⟨update_self _ _ _, update_self _ _ _, ?_⟩
      apply link.2.2.2.2.congr
      · intro other mem
        have notFirst : other ≠ first := fun same =>
          off (mem_cons_of_mem _ (same ▸ mem))
        exact update_of_ne notFirst _ _
      intro other mem
      refine update_of_ne ?_ _ _
      rcases mem_cons.mp mem with rfl | later
      · exact fun same => closed (mem_cons_of_mem _ (same ▸ mem_cons_self))
      · have isOnce := (nodup_cons.mp (nodup_cons.mp nodupRest).2).1
        exact ne_of_mem_of_not_mem later isOnce
  | cons second rest ih =>
    obtain ⟨off, nodupRest⟩ := nodup_cons.mp nodup
    rw [getLastD_cons] at isPrev
    refine ⟨?_, ?_, ?_⟩
    · refine (update_of_ne ?_ _ _).trans link.1
      intro same
      rw [isPrev] at same
      have mem := same ▸ getLastD_mem
      exact off (mem_append_left (node :: back) mem)
    · refine (update_of_ne ?_ _ _).trans link.2.1
      intro same
      rw [isNext] at same
      rcases mem_cons.mp (same ▸ headD_mem) with isLast | inBack
      · exact closed (isLast ▸ mem_cons_self)
      · exact (nodup_cons.mp nodupRest).1
          (mem_append_right _ (mem_cons_of_mem _ inBack))
    · exact ih link.2.2 nodupRest
        (fun mem => closed (mem_cons_of_mem _ mem)) isPrev

end Linked

structure Circular (next prev : α → α) (header : α) (l : List α) : Prop where
  nodup : (header :: l).Nodup
  linked : Linked next prev header l header

namespace Circular

lemma place_mem : back.headD header ∈ header :: (front ++ back) := by
  rcases mem_cons.mp (@Linked.headD_mem _ header back) with same | inBack
  · rw [same]
    exact mem_cons_self
  · exact mem_cons_of_mem _ (mem_append_right _ inBack)

lemma prev_mem (circ : Circular next prev header (front ++ back)) :
    prev (back.headD header) ∈ header :: (front ++ back) := by
  rw [circ.linked.prev_place]
  rcases mem_cons.mp (@Linked.getLastD_mem _ header front) with
    same | inFront
  · rw [same]
    exact mem_cons_self
  · exact mem_cons_of_mem _ (mem_append_left _ inFront)

lemma next_mem (circ : Circular next prev header (front ++ node :: back)) :
    next node ∈ header :: (front ++ node :: back) := by
  rw [circ.linked.next_place]
  rcases mem_cons.mp (@Linked.headD_mem _ header back) with same | inBack
  · rw [same]
    exact mem_cons_self
  · exact mem_cons_of_mem _ (mem_append_right _ (mem_cons_of_mem _ inBack))

lemma nil (isNext : next header = header) (isPrev : prev header = header) :
    Circular next prev header [] :=
  ⟨nodup_singleton header, isNext, isPrev⟩

lemma congr (circ : Circular next prev header l)
    (eqNext : ∀ node ∈ header :: l, next' node = next node)
    (eqPrev : ∀ node ∈ header :: l, prev' node = prev node) : Circular next' prev' header l :=
  ⟨circ.nodup, circ.linked.congr eqNext eqPrev⟩

lemma rotate (circ : Circular next prev header (node :: l)) :
    Circular next prev node (l ++ [header]) :=
  ⟨(perm_append_singleton header (node :: l)).nodup_iff.mpr circ.nodup,
    circ.linked.2.2.snoc circ.linked.1 circ.linked.2.1⟩

variable [DecidableEq α]

lemma insert (circ : Circular next prev header (front ++ back))
    (fresh : node ∉ header :: (front ++ back)) :
    Circular
      (update (update next node (back.headD header)) (prev (back.headD header))
        node)
      (update (update prev node (prev (back.headD header))) (back.headD header)
        node)
      header (front ++ node :: back) := by
  have off := (nodup_cons.mp circ.nodup).1
  have notHeader : node ≠ header := fun same => fresh (same ▸ mem_cons_self)
  refine ⟨?_, circ.linked.insert circ.nodup off fresh notHeader⟩
  apply (perm_middle.cons header).symm.nodup
  apply (List.Perm.swap node header _).symm.nodup
  exact nodup_cons.mpr ⟨fresh, circ.nodup⟩

lemma erase (circ : Circular next prev header (front ++ node :: back)) :
    Circular (update next (prev node) (next node))
      (update prev (next node) (prev node)) header (front ++ back) := by
  have off := (nodup_cons.mp circ.nodup).1
  refine ⟨?_, circ.linked.erase circ.nodup off⟩
  apply List.Nodup.sublist _ circ.nodup
  exact ((sublist_cons_self node back).append_left front).cons_cons header

end Circular

structure Rings (next prev : α → α) (headers : List α) (content : α → List α) : Prop where
  circular : ∀ header ∈ headers, Circular next prev header (content header)
  notHeader : ∀ header ∈ headers, ∀ node ∈ content header, node ∉ headers
  apart : ∀ header ∈ headers, ∀ other ∈ headers, header ≠ other →
    (content header).Disjoint (content other)

namespace Rings

variable {headers : List α} {content : α → List α} {other : α}

section

variable (rings : Rings next prev headers content)
include rings

lemma not_mem_other (isHeader : header ∈ headers) (isOther : other ∈ headers) (ne : header ≠ other)
    (place : node ∈ header :: content header) : node ∉ other :: content other := by
  intro again
  rcases mem_cons.mp place with rfl | listed
  · rcases mem_cons.mp again with same | isNode
    · exact ne same
    · exact rings.notHeader other isOther node isNode isHeader
  rcases mem_cons.mp again with rfl | isNode
  · exact rings.notHeader header isHeader node listed isOther
  · exact rings.apart header isHeader other isOther ne listed isNode

lemma congr (eqNext : ∀ header ∈ headers, ∀ node ∈ header :: content header, next' node = next node)
    (eqPrev : ∀ header ∈ headers, ∀ node ∈ header :: content header, prev' node = prev node) :
    Rings next' prev' headers content :=
  ⟨fun header isHeader => (rings.circular header isHeader).congr (eqNext header isHeader)
    (eqPrev header isHeader), rings.notHeader, rings.apart⟩

variable [DecidableEq α]

section

variable (isHeader : header ∈ headers)
include isHeader

lemma replace (circ : Circular next' prev' header l) (notHeader : ∀ node ∈ l, node ∉ headers)
    (apart : ∀ other ∈ headers, header ≠ other → l.Disjoint (content other))
    (eqNext : ∀ other ∈ headers, header ≠ other → ∀ node ∈ other :: content other,
      next' node = next node)
    (eqPrev : ∀ other ∈ headers, header ≠ other → ∀ node ∈ other :: content other,
      prev' node = prev node) : Rings next' prev' headers (update content header l) := by
  refine ⟨fun other isOther => ?_, fun other isOther => ?_, ?_⟩
  · by_cases same : other = header
    · subst same
      rw [update_self]
      exact circ
    rw [update_of_ne same]
    exact (rings.circular other isOther).congr (eqNext other isOther (Ne.symm same))
      (eqPrev other isOther (Ne.symm same))
  · by_cases same : other = header
    · subst same
      rw [update_self]
      exact notHeader
    · rw [update_of_ne same]
      exact rings.notHeader other isOther
  · intro one isOne two isTwo ne
    by_cases first : one = header
    · subst first
      rw [update_self, update_of_ne (Ne.symm ne)]
      exact apart two isTwo ne
    rw [update_of_ne first]
    by_cases second : two = header
    · subst second
      rw [update_self]
      exact fun node mem again => apart one isOne (Ne.symm first) again mem
    · rw [update_of_ne second]
      exact rings.apart one isOne two isTwo ne

lemma insert (split : content header = front ++ back) (notHeader : node ∉ headers)
    (fresh : ∀ other ∈ headers, node ∉ content other) : Rings
      (update (update next node (back.headD header)) (prev (back.headD header)) node)
      (update (update prev node (prev (back.headD header))) (back.headD header) node)
      headers (update content header (front ++ node :: back)) := by
  have circ := rings.circular header isHeader
  rw [split] at circ
  have listed : ∀ other, other ∈ front ++ node :: back → other = node ∨ other ∈ content header := by
    intro other mem
    rw [split]
    exact mem_cons.mp (perm_middle.mem_iff.mp mem)
  have isPlace : back.headD header ∈ header :: content header := by
    rw [split]
    exact Circular.place_mem
  have isPrev : prev (back.headD header) ∈ header :: content header := by
    rw [split]
    exact circ.prev_mem
  -- neither the node nor a place of this ring is on another one
  have away : ∀ other ∈ headers, header ≠ other → ∀ place ∈ other :: content other,
      place ≠ node ∧ place ≠ back.headD header ∧ place ≠ prev (back.headD header) := by
    intro other isOther ne place mem
    refine ⟨?_, ?_, ?_⟩
    · rintro rfl
      rcases mem_cons.mp mem with rfl | isListed
      · exact notHeader isOther
      · exact fresh other isOther isListed
    · rintro rfl
      exact rings.not_mem_other isHeader isOther ne isPlace mem
    · rintro rfl
      exact rings.not_mem_other isHeader isOther ne isPrev mem
  apply rings.replace isHeader
  · apply circ.insert
    rw [← split]
    intro mem
    rcases mem_cons.mp mem with rfl | isListed
    · exact notHeader isHeader
    · exact fresh header isHeader isListed
  · intro other mem
    rcases listed other mem with rfl | old
    · exact notHeader
    · exact rings.notHeader header isHeader other old
  · intro other isOther ne place mem again
    rcases listed place mem with rfl | old
    · exact fresh other isOther again
    · exact rings.apart header isHeader other isOther ne old again
  · intro other isOther ne place mem
    obtain ⟨notNode, -, notPrev⟩ := away other isOther ne place mem
    rw [update_of_ne notPrev, update_of_ne notNode]
  · intro other isOther ne place mem
    obtain ⟨notNode, notPlace, -⟩ := away other isOther ne place mem
    rw [update_of_ne notPlace, update_of_ne notNode]

lemma erase (split : content header = front ++ node :: back) :
    Rings (update next (prev node) (next node)) (update prev (next node) (prev node)) headers
      (update content header (front ++ back)) := by
  have circ := rings.circular header isHeader
  rw [split] at circ
  have kept : ∀ other ∈ front ++ back, other ∈ content header := by
    intro other mem
    rw [split]
    exact ((sublist_cons_self node back).append_left front).subset mem
  have isPrev : prev node ∈ header :: content header := by
    rw [split]
    exact circ.prev_mem
  have isNext : next node ∈ header :: content header := by
    rw [split]
    exact circ.next_mem
  apply rings.replace isHeader circ.erase
  · exact fun other mem => rings.notHeader header isHeader other (kept other mem)
  · intro other isOther ne place mem again
    exact rings.apart header isHeader other isOther ne (kept place mem) again
  · intro other isOther ne place mem
    refine update_of_ne ?_ _ _
    rintro rfl
    exact rings.not_mem_other isHeader isOther ne isPrev mem
  · intro other isOther ne place mem
    refine update_of_ne ?_ _ _
    rintro rfl
    exact rings.not_mem_other isHeader isOther ne isNext mem

end

end

end Rings

end PrettyOS.Library
