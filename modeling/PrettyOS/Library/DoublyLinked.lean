import Mathlib.Data.List.Nodup
import Mathlib.Tactic.Common

/-!
Contract: doubly linked lists threaded through two maps of links.

The links of `null` may hold anything.
-/

namespace PrettyOS.Library

open Function List

variable {α : Type*} {null before start node : α} {next prev : α → α} {l : List α}

def Doubly (null : α) (next prev : α → α) : α → α → List α → Prop
  | _, start, [] => start = null
  | before, start, node :: rest =>
      start = node ∧ node ≠ null ∧ prev node = before ∧ Doubly null next prev node (next node) rest

namespace Doubly

section

variable (linked : Doubly null next prev before start l)
include linked

lemma ne_null (mem : node ∈ l) : node ≠ null := by
  induction l generalizing before start with
  | nil => cases mem
  | cons first rest ih =>
    rcases mem_cons.mp mem with rfl | later
    · exact linked.2.1
    · exact ih linked.2.2.2 later

lemma congr {next' prev' : α → α} (eqNext : ∀ node ∈ l, next' node = next node)
    (eqPrev : ∀ node ∈ l, prev' node = prev node) : Doubly null next' prev' before start l := by
  induction l generalizing before start with
  | nil => exact linked
  | cons first rest ih =>
    rw [forall_mem_cons] at eqNext eqPrev
    refine ⟨linked.1, linked.2.1, eqPrev.1.trans linked.2.2.1, ?_⟩
    rw [eqNext.1]
    exact ih linked.2.2.2 eqNext.2 eqPrev.2

lemma start_eq : start = l.headD null := by
  cases l with
  | nil => exact linked
  | cons first rest => exact linked.1

lemma next_mem (mem : node ∈ l) : next node = null ∨ next node ∈ l := by
  induction l generalizing before start with
  | nil => cases mem
  | cons first rest ih =>
    rcases mem_cons.mp mem with rfl | later
    · have isStart := linked.2.2.2.start_eq
      cases rest with
      | nil => exact Or.inl isStart
      | cons second others =>
        right
        rw [isStart]
        exact mem_cons_of_mem _ mem_cons_self
    · exact (ih linked.2.2.2 later).imp_right (mem_cons_of_mem _)

lemma prev_mem (mem : node ∈ l) : prev node = before ∨ prev node ∈ l := by
  induction l generalizing before start with
  | nil => cases mem
  | cons first rest ih =>
    rcases mem_cons.mp mem with rfl | later
    · exact Or.inl linked.2.2.1
    right
    rcases ih linked.2.2.2 later with isFirst | inRest
    · rw [isFirst]
      exact mem_cons_self
    · exact mem_cons_of_mem _ inRest

lemma prev_mem_of_ne (mem : node ∈ l) (notFirst : start ≠ node) : prev node ∈ l := by
  cases l with
  | nil => cases mem
  | cons first rest =>
    obtain ⟨rfl, -, -, linkRest⟩ := linked
    have later := (mem_cons.mp mem).resolve_left notFirst.symm
    exact mem_cons.mpr (linkRest.prev_mem later)

lemma next_ne (nodup : l.Nodup) (mem : node ∈ l) : next node ≠ node := by
  induction l generalizing before start with
  | nil => cases mem
  | cons first rest ih =>
    obtain ⟨notAgain, nodupRest⟩ := nodup_cons.mp nodup
    rcases mem_cons.mp mem with rfl | later
    · rw [linked.2.2.2.start_eq]
      cases rest with
      | nil => exact linked.2.1.symm
      | cons second others => exact ne_of_mem_of_not_mem mem_cons_self notAgain
    · exact ih linked.2.2.2 nodupRest later

lemma unique {other : List α} (alsoOther : Doubly null next prev before start other) :
    l = other := by
  induction l generalizing before start other with
  | nil =>
    cases other with
    | nil => rfl
    | cons node rest => exact absurd (alsoOther.1.symm.trans linked) alsoOther.2.1
  | cons node rest ih =>
    cases other with
    | nil => exact absurd (linked.1.symm.trans alsoOther) linked.2.1
    | cons node' rest' =>
      obtain rfl : node = node' := linked.1.symm.trans alsoOther.1
      rw [ih linked.2.2.2 alsoOther.2.2.2]

end

variable [DecidableEq α]

lemma push (linked : Doubly null next prev null start l) (nodup : l.Nodup) (fresh : node ∉ l)
    (ne0 : node ≠ null) :
    Doubly null (update next node start)
      (update (update prev node null) start node) null node (node :: l) := by
  have notStart : node ≠ start := by
    rw [linked.start_eq]
    cases l with
    | nil => exact ne0
    | cons first rest => exact fun same => fresh (same ▸ mem_cons_self)
  refine ⟨rfl, ne0, ?_, ?_⟩
  · rw [update_of_ne notStart, update_self]
  rw [update_self]
  cases l with
  | nil => exact linked
  | cons first rest =>
    obtain rfl := linked.1
    refine ⟨rfl, linked.2.1, update_self _ _ _, ?_⟩
    rw [update_of_ne notStart.symm]
    refine linked.2.2.2.congr (fun other mem => ?_) (fun other mem => ?_)
    all_goals have notNode := ne_of_mem_of_not_mem (mem_cons_of_mem _ mem) fresh
    · exact update_of_ne notNode _ _
    · have notFirst := ne_of_mem_of_not_mem mem (nodup_cons.mp nodup).1
      rw [update_of_ne notFirst, update_of_ne notNode]

lemma tail (linked : Doubly null next prev before start (node :: l)) (nodup : (node :: l).Nodup)
    (out : before ∉ node :: l) :
    Doubly null (if before ≠ null then update next before (next node) else next)
      (if next node ≠ null then update prev (next node) before else prev)
      before (next node) l := by
  have rest := linked.2.2.2
  have eqNext : ∀ other ∈ l,
      (if before ≠ null then update next before (next node) else next) other =
        next other := by
    intro other mem
    split_ifs
    · exact update_of_ne
        (ne_of_mem_of_not_mem (mem_cons_of_mem _ mem) out) _ _
    · rfl
  cases l with
  | nil => exact rest
  | cons second others =>
    obtain ⟨isSecond, ne0, -, linkedOthers⟩ := rest
    rw [isSecond, if_pos ne0]
    refine ⟨rfl, ne0, update_self _ _ _, ?_⟩
    rw [isSecond] at eqNext
    rw [eqNext second mem_cons_self]
    refine linkedOthers.congr (fun other mem => ?_) (fun other mem => ?_)
    · exact eqNext other (mem_cons_of_mem _ mem)
    refine update_of_ne ?_ _ _
    rintro rfl
    exact (nodup_cons.mp (nodup_cons.mp nodup).2).1 mem

lemma erase (linked : Doubly null next prev before start l) (nodup : l.Nodup)
    (out : before ∉ l) (mem : node ∈ l) :
    Doubly null (if prev node ≠ null then update next (prev node) (next node) else next)
      (if next node ≠ null then update prev (next node) (prev node) else prev)
      before (if start = node then next node else start) (l.erase node) := by
  induction l generalizing before start with
  | nil => cases mem
  | cons first rest ih =>
    obtain ⟨rfl, ne0, isBefore, linkRest⟩ := linked
    obtain ⟨notAgain, nodupRest⟩ := nodup_cons.mp nodup
    by_cases isFirst : start = node
    · subst isFirst
      rw [if_pos rfl, erase_cons_head, isBefore]
      exact tail ⟨rfl, ne0, isBefore, linkRest⟩ nodup out
    have later := (mem_cons.mp mem).resolve_left (Ne.symm isFirst)
    rw [if_neg isFirst, erase_cons_tail (by simpa using isFirst)]
    have taken := ih linkRest nodupRest notAgain later
    refine ⟨rfl, ne0, ?_, ?_⟩
    · -- the successor of the node is not the first node
      split_ifs
      · rw [update_of_ne, isBefore]
        rintro same
        rcases linkRest.next_mem later with isNull | inRest
        · exact ne0 (same.trans isNull)
        · exact notAgain (same ▸ inRest)
      · exact isBefore
    have isNext : (if prev node ≠ null then update next (prev node) (next node)
        else next) start = if next start = node then next node else next start := by
      by_cases follows : next start = node
      · have isPrev : prev node = start := by
          cases rest with
          | nil => cases later
          | cons second others => exact follows ▸ linkRest.1 ▸ linkRest.2.2.1
        rw [if_pos follows, isPrev, if_pos ne0, update_self]
      have mem := linkRest.prev_mem_of_ne later follows
      have away := ne_of_mem_of_not_mem mem notAgain
      rw [if_neg follows]
      split_ifs
      · exact update_of_ne away.symm _ _
      · rfl
    rw [isNext]
    exact taken

end Doubly

end PrettyOS.Library
