import Mathlib
import PrettyOS.Library.Runs

/-!
Contract: bounded queues in a ring of cells with a head, a tail and a count.

A cell keeps the item that was taken from it.
-/

namespace PrettyOS.Library

open List Function Nat

structure RingBuffer (α : Type*) where
  buf : Nat → α
  head : Nat
  tail : Nat
  count : Int

namespace RingBuffer

variable {α : Type*} {size index : Nat} {r : RingBuffer α} {items : List α} {item : α}

def advance (size index : Nat) : Nat := if index + 1 = size then 0 else index + 1

def put (size : Nat) (item : α) (r : RingBuffer α) : RingBuffer α :=
  if r.count < size then
    { r with
      buf := update r.buf r.head item
      head := advance size r.head
      count := r.count + 1 }
  else r

def take (size : Nat) (r : RingBuffer α) : α × RingBuffer α :=
  (r.buf r.tail, { r with tail := advance size r.tail, count := r.count - 1 })

structure Holds (size : Nat) (r : RingBuffer α) (items : List α) : Prop where
  head_lt : r.head < size
  tail_lt : r.tail < size
  count_eq : r.count = items.length
  length_le : items.length ≤ size
  head_eq : r.head = (r.tail + items.length) % size
  stored : ∀ i < items.length, items[i]? = some (r.buf ((r.tail + i) % size))

lemma advance_eq (inside : index < size) : advance size index = (index + 1) % size := by
  unfold advance
  split_ifs with isLast
  · rw [isLast, mod_self]
  · exact (mod_eq_of_lt (by omega)).symm

lemma mod_ne_mod {a b : Nat} (before : a < b) (near : b - a < size) : a % size ≠ b % size := by
  intro same
  have divides := (modEq_iff_dvd' (Nat.le_of_lt before)).mp same
  exact absurd (le_of_dvd (by omega) divides) (by omega)

lemma holds_nil (inside : index < size) (empty : r.count = 0) (isHead : r.head = index)
    (isTail : r.tail = index) : Holds size r [] where
  head_lt := isHead ▸ inside
  tail_lt := isTail ▸ inside
  count_eq := empty
  length_le := Nat.zero_le _
  head_eq := by
    rw [isHead, isTail]
    exact (mod_eq_of_lt inside).symm
  stored := fun _ bound => absurd bound (Nat.not_lt_zero _)

lemma Holds.put (holds : Holds size r items) (room : items.length < size) :
    Holds size (put size item r) (items ++ [item]) := by
  have isBelow : r.count < size := by
    rw [holds.count_eq]
    exact_mod_cast room
  have pos : 0 < size := zero_lt_of_lt room
  rw [RingBuffer.put, if_pos isBelow]
  constructor
  · show advance size r.head < size
    rw [advance_eq holds.head_lt]
    exact mod_lt _ pos
  · exact holds.tail_lt
  · show r.count + 1 = _
    rw [holds.count_eq, length_append]
    rfl
  · rw [length_append]
    exact room
  · show advance size r.head = _
    rw [advance_eq holds.head_lt, holds.head_eq, mod_add_mod, length_append]
    rfl
  · intro i bound
    show _ = some (update r.buf r.head item ((r.tail + i) % size))
    rw [length_append, length_singleton] at bound
    rcases Nat.lt_succ_iff_lt_or_eq.mp bound with old | isLast
    · have away : (r.tail + i) % size ≠ r.head := by
        rw [holds.head_eq]
        exact mod_ne_mod (by omega) (by omega)
      rw [update_of_ne away, getElem?_append_left old]
      exact holds.stored i old
    · rw [isLast, ← holds.head_eq, update_self, getElem?_concat_length]

lemma Holds.put_full (holds : Holds size r items) (full : ¬ items.length < size) :
    RingBuffer.put size item r = r := by
  rw [RingBuffer.put, if_neg]
  rw [holds.count_eq]
  exact_mod_cast full

lemma Holds.take (holds : Holds size r (item :: items)) :
    (take size r).1 = item ∧ Holds size (take size r).2 items := by
  have pos : 0 < size := zero_lt_of_lt holds.tail_lt
  have fits := holds.length_le
  rw [length_cons] at fits
  constructor
  · have first := holds.stored 0 (succ_pos _)
    rw [Nat.add_zero, mod_eq_of_lt holds.tail_lt] at first
    exact (Option.some.inj first).symm
  constructor
  · exact holds.head_lt
  · show advance size r.tail < size
    rw [advance_eq holds.tail_lt]
    exact mod_lt _ pos
  · show r.count - 1 = _
    rw [holds.count_eq, length_cons]
    omega
  · exact le_of_succ_le fits
  · show r.head = (advance size r.tail + items.length) % size
    rw [holds.head_eq, advance_eq holds.tail_lt, mod_add_mod, length_cons]
    congr 1
    omega
  · intro i bound
    show _ = some (r.buf ((advance size r.tail + i) % size))
    have behind := holds.stored (i + 1) (succ_lt_succ bound)
    rw [getElem?_cons_succ] at behind
    rw [behind, advance_eq holds.tail_lt, mod_add_mod, Nat.add_right_comm, Nat.add_assoc]

lemma Holds.count_pos_iff (holds : Holds size r items) : 0 < r.count ↔ items ≠ [] := by
  rw [holds.count_eq, ← length_pos_iff]
  exact Int.natCast_pos

end RingBuffer

variable {α : Type*} {size : Nat}

inductive QueueOp (α : Type*) where
  | put (item : α)
  | take

def accepted (size : Nat) : List (QueueOp α) → Nat → List α
  | [], _ => []
  | .put item :: rest, stored =>
      if stored < size then item :: accepted size rest (stored + 1) else accepted size rest stored
  | .take :: rest, stored => accepted size rest (stored - 1)

def TakesStored (size : Nat) : List (QueueOp α) → Nat → Prop
  | [], _ => True
  | .put _ :: rest, stored =>
      TakesStored size rest (if stored < size then stored + 1 else stored)
  | .take :: rest, stored => 0 < stored ∧ TakesStored size rest (stored - 1)

structure QueueStep {σ ρ : Type*} (step : QueueOp α → σ → Option (List ρ × σ))
    (queue : σ → RingBuffer α) (size : Nat) (yield : α → ρ) : Prop where
  put : ∀ {item s result t}, step (.put item) s = some (result, t) →
    result = [] ∧ queue t = (queue s).put size item
  takeSome : ∀ {s result t}, 0 < (queue s).count → step .take s = some (result, t) →
    result = [yield ((queue s).take size).1] ∧ queue t = ((queue s).take size).2
  takeNone : ∀ {s result t}, (queue s).count = 0 → step .take s = some (result, t) →
    result = [] ∧ queue t = queue s

section Runs

variable {σ ρ : Type*} {step : QueueOp α → σ → Option (List ρ × σ)} {queue : σ → RingBuffer α}
  {yield : α → ρ} {ops : List (QueueOp α)} {s last : σ} {results : List (List ρ)}

lemma QueueStep.fifo (isStep : QueueStep step queue size yield) {stored : List α}
    (holds : (queue s).Holds size stored) (ran : runSteps step ops s = some (results, last)) :
    ∃ taken left, results.flatten = taken.map yield ∧ (queue last).Holds size left ∧
      stored ++ accepted size ops stored.length = taken ++ left := by
  induction ops generalizing s stored results with
  | nil =>
    cases ran
    exact ⟨[], stored, rfl, holds, append_nil stored⟩
  | cons op rest ih =>
    obtain ⟨_, t, _, first, isRest, rfl⟩ := runSteps_cons ran
    cases op with
    | put item =>
      obtain ⟨rfl, isPut⟩ := isStep.put first
      rw [flatten_cons, nil_append]
      by_cases room : stored.length < size
      · have holdsNow := isPut ▸ holds.put room
        obtain ⟨taken, left, isTaken, holdsLeft, split⟩ := ih holdsNow isRest
        refine ⟨taken, left, isTaken, holdsLeft, ?_⟩
        rw [accepted, if_pos room, ← split, length_append, append_assoc]
        rfl
      · rw [holds.put_full room] at isPut
        obtain ⟨taken, left, isTaken, holdsLeft, split⟩ := ih (isPut ▸ holds) isRest
        refine ⟨taken, left, isTaken, holdsLeft, ?_⟩
        rw [accepted, if_neg room, split]
    | take =>
      cases stored with
      | nil =>
        obtain ⟨rfl, same⟩ := isStep.takeNone holds.count_eq first
        obtain ⟨taken, left, isTaken, holdsLeft, split⟩ := ih (same ▸ holds) isRest
        exact ⟨taken, left, isTaken, holdsLeft, split⟩
      | cons item stored =>
        have notEmpty : 0 < (queue s).count := by simp [holds.count_pos_iff]
        obtain ⟨rfl, isTake⟩ := isStep.takeSome notEmpty first
        obtain ⟨isItem, holdsNow⟩ := holds.take
        obtain ⟨taken, left, isTaken, holdsLeft, split⟩ := ih (isTake ▸ holdsNow) isRest
        refine ⟨item :: taken, left, ?_, holdsLeft, ?_⟩
        · rw [isItem, flatten_cons, isTaken]
          rfl
        · rw [cons_append, cons_append, accepted, ← split, length_cons, Nat.add_sub_cancel]

lemma runSteps_of_takesStored (isStep : QueueStep step queue size yield) {stored : List α}
    (puts : ∀ item s, ∃ done, step (.put item) s = some done)
    (takes : ∀ s, 0 < (queue s).count → ∃ done, step .take s = some done)
    (holds : (queue s).Holds size stored) (found : TakesStored size ops stored.length) :
    ∃ results last, runSteps step ops s = some (results, last) := by
  induction ops generalizing s stored with
  | nil => exact ⟨[], s, rfl⟩
  | cons op rest ih =>
    have extend : ∀ {res t}, step op s = some (res, t) →
        (∃ results last, runSteps step rest t = some (results, last)) →
        ∃ results last, runSteps step (op :: rest) s = some (results, last) := by
      rintro res t first ⟨results, last, isRest⟩
      exact ⟨res :: results, last, runSteps_extend first isRest⟩
    cases op with
    | put item =>
      obtain ⟨⟨res, t⟩, first⟩ := puts item s
      apply extend first
      obtain ⟨-, isPut⟩ := isStep.put first
      rw [TakesStored] at found
      by_cases room : stored.length < size
      · rw [if_pos room] at found
        apply ih (isPut ▸ holds.put room)
        rw [length_append]
        exact found
      · rw [if_neg room] at found
        rw [holds.put_full room] at isPut
        exact ih (isPut ▸ holds) found
    | take =>
      cases stored with
      | nil => exact absurd found.1 (Nat.lt_irrefl 0)
      | cons item stored =>
        have notEmpty : 0 < (queue s).count := by simp [holds.count_pos_iff]
        obtain ⟨⟨res, t⟩, first⟩ := takes s notEmpty
        apply extend first
        obtain ⟨-, isTake⟩ := isStep.takeSome notEmpty first
        exact ih (isTake ▸ holds.take.2) found.2

end Runs

end PrettyOS.Library
