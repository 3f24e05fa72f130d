import Mathlib.Data.List.Basic
import Mathlib.Tactic.Common

/-!
Contract: lists in which every earlier element stands in a relation to every later one.
-/

namespace PrettyOS.Library

open List

variable {α : Type*} {related : α → α → Prop} {l : List α} {holds : α → Bool}

lemma not_holds_of_mem_dropWhile (sorted : l.Pairwise related)
    (back : ∀ old later, related old later → holds later = true → holds old = true) :
    ∀ elem ∈ l.dropWhile holds, holds elem = false := by
  induction l with
  | nil => exact fun _ mem => absurd mem not_mem_nil
  | cons first rest ih =>
    obtain ⟨relatedRest, sortedRest⟩ := pairwise_cons.mp sorted
    rw [dropWhile_cons]
    split_ifs with isHeld
    · exact ih sortedRest
    intro elem mem
    rw [← Bool.not_eq_true]
    intro alsoHeld
    rcases mem_cons.mp mem with rfl | later
    · exact isHeld alsoHeld
    · exact isHeld (back first elem (relatedRest elem later) alsoHeld)

lemma pairwise_insert {front back : List α} {new : α} (frontSorted : front.Pairwise related)
    (backSorted : back.Pairwise related)
    (frontBack : ∀ old ∈ front, ∀ later ∈ back, related old later)
    (frontNew : ∀ old ∈ front, related old new)
    (newBack : ∀ later ∈ back, related new later) : (front ++ new :: back).Pairwise related := by
  rw [pairwise_append, pairwise_cons]
  refine ⟨frontSorted, ⟨newBack, backSorted⟩, ?_⟩
  intro old isEarlier later isLater
  rcases mem_cons.mp isLater with rfl | isBack
  · exact frontNew old isEarlier
  · exact frontBack old isEarlier later isBack

lemma related_of_find? {first : α} (sorted : l.Pairwise related)
    (found : l.find? holds = some first) :
    ∀ elem ∈ l, holds elem = true → elem = first ∨ related first elem := by
  obtain ⟨-, _, _, rfl, old⟩ := find?_eq_some_iff_append.mp found
  obtain ⟨-, sortedBack, -⟩ := pairwise_append.mp sorted
  intro elem mem alsoHeld
  rcases mem_append.mp mem with isEarlier | isLater
  · have notHeld := old elem isEarlier
    rw [alsoHeld] at notHeld
    cases notHeld
  rcases mem_cons.mp isLater with isFirst | isBack
  · exact Or.inl isFirst
  · exact Or.inr ((pairwise_cons.mp sortedBack).1 elem isBack)

end PrettyOS.Library
