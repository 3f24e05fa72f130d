import Mathlib.Data.Finset.Card
import Mathlib.Tactic.Common

/-!
Contract: drawing from a finite pool, one element after the other.
-/

namespace PrettyOS.Library

open List Finset

variable {σ α : Type*}

def draws (draw : σ → α × σ) : Nat → σ → List α
  | 0, _ => []
  | count + 1, state => (draw state).1 :: draws draw count (draw state).2

structure DrawsFrom [DecidableEq α] (pool : σ → Finset α) (blank : α) (draw : σ → α × σ) :
    Prop where
  member : ∀ state, (pool state).Nonempty → (draw state).1 ∈ pool state
  erase : ∀ state, (pool state).Nonempty → pool (draw state).2 = (pool state).erase (draw state).1
  blank : ∀ state, pool state = ∅ → (draw state).1 = blank
  empty : ∀ state, pool state = ∅ → pool (draw state).2 = ∅

variable {draw : σ → α × σ} {count : Nat} {state : σ}

@[simp] theorem length_draws : (draws draw count state).length = count := by
  induction count generalizing state with
  | zero => rfl
  | succ count ih => exact congrArg Nat.succ ih

lemma not_nodup_draws (same : (draw (draw state).2).1 = (draw state).1) (long : 2 ≤ count) :
    ¬(draws draw count state).Nodup := by
  obtain ⟨_, rfl⟩ := Nat.exists_eq_add_of_le' long
  intro nodup
  refine (nodup_cons.mp nodup).1 ?_
  rw [← same]
  exact mem_cons_self

namespace DrawsFrom

variable [DecidableEq α] {pool : σ → Finset α} {blank value : α}

section

variable (drawsFrom : DrawsFrom pool blank draw)
include drawsFrom

lemma mem_or_blank (drawn : value ∈ draws draw count state) :
    value ∈ pool state ∨ value = blank ∧ (pool state).card < count := by
  induction count generalizing state with
  | zero => cases drawn
  | succ count ih =>
    rcases (pool state).eq_empty_or_nonempty with empty | nonempty
    · right
      refine ⟨?_, by rw [empty]; exact Nat.succ_pos count⟩
      rcases mem_cons.mp drawn with rfl | later
      · exact drawsFrom.blank state empty
      rcases ih later with mem | ⟨isBlank, -⟩
      · rw [drawsFrom.empty state empty] at mem
        cases mem
      · exact isBlank
    rcases mem_cons.mp drawn with rfl | later
    · exact .inl (drawsFrom.member state nonempty)
    have less := card_erase_of_mem (drawsFrom.member state nonempty)
    rcases ih later with mem | ⟨isBlank, exhausted⟩
    · rw [drawsFrom.erase state nonempty] at mem
      exact .inl (mem_of_mem_erase mem)
    · rw [drawsFrom.erase state nonempty, less] at exhausted
      exact .inr ⟨isBlank, by omega⟩

lemma blank_mem (exhausted : (pool state).card < count) : blank ∈ draws draw count state := by
  induction count generalizing state with
  | zero => cases exhausted
  | succ count ih =>
    rcases (pool state).eq_empty_or_nonempty with empty | nonempty
    · rw [← drawsFrom.blank state empty]
      exact mem_cons_self
    have less := card_erase_of_mem (drawsFrom.member state nonempty)
    have pos := card_pos.mpr nonempty
    refine mem_cons_of_mem _ (ih ?_)
    rw [drawsFrom.erase state nonempty, less]
    omega

lemma mem_again_iff (ne : (pool state).Nonempty) :
    (draw state).1 ∈ draws draw count (draw state).2 ↔
      (draw state).1 = blank ∧ (pool state).card - 1 < count := by
  have less := card_erase_of_mem (drawsFrom.member state ne)
  have rest := drawsFrom.erase state ne
  constructor
  · intro drawn
    rcases drawsFrom.mem_or_blank drawn with inside | exhausted
    · rw [rest] at inside
      exact absurd rfl (ne_of_mem_erase inside)
    · rwa [rest, less] at exhausted
  · rintro ⟨isBlank, exhausted⟩
    rw [isBlank]
    apply drawsFrom.blank_mem
    rwa [rest, less]

lemma nodup_iff : (draws draw count state).Nodup ↔
      count ≤ (pool state).card ∨ count = (pool state).card + 1 ∧ blank ∉ pool state := by
  induction count generalizing state with
  | zero => simp [draws]
  | succ count ih =>
    show ((draw state).1 :: draws draw count (draw state).2).Nodup ↔ _
    rw [nodup_cons, ih]
    rcases (pool state).eq_empty_or_nonempty with empty | nonempty
    · have later := drawsFrom.empty state empty
      rw [later, empty, drawsFrom.blank state empty, card_empty]
      constructor
      · intro fresh
        have none : ¬0 < count := fun some =>
          fresh.1 (drawsFrom.blank_mem (by rw [later]; exact some))
        exact .inr ⟨by omega, notMem_empty _⟩
      · intro room
        obtain rfl : count = 0 := by omega
        exact ⟨not_mem_nil, .inl le_rfl⟩
    have mem := drawsFrom.member state nonempty
    have less := card_erase_of_mem mem
    have pos := card_pos.mpr nonempty
    rw [drawsFrom.erase state nonempty, less]
    rw [drawsFrom.mem_again_iff nonempty, mem_erase, not_and, not_and]
    by_cases isBlank : (draw state).1 = blank
    · rw [isBlank] at mem
      constructor
      · rintro ⟨first, -⟩
        have := first isBlank
        exact .inl (by omega)
      rintro (room | ⟨-, absent⟩)
      · exact ⟨fun _ => by omega, .inl (by omega)⟩
      · exact absurd mem absent
    · constructor
      · rintro ⟨-, room | ⟨exact, absent⟩⟩
        · exact .inl (by omega)
        · exact .inr ⟨by omega, absent (Ne.symm isBlank)⟩
      rintro (room | ⟨exact, absent⟩)
      · exact ⟨fun same => absurd same isBlank, .inl (by omega)⟩
      · exact ⟨fun same => absurd same isBlank, .inr ⟨by omega, fun _ => absent⟩⟩

end

end DrawsFrom

end PrettyOS.Library
