import PrettyOS.Lib.Bitmap

/-!
Contract: the process identifiers of `kernel/pid.c`.
-/

namespace PrettyOS.Kernel

open Lib

def maxPidnum : Nat := 1024

def initPid : BitVec 32 := 1

structure Pidmap where
  bytes : List Byte
  length_eq : bytes.length = maxPidnum / 8
deriving DecidableEq

namespace Pidmap

def marked (map : Pidmap) (nr : Nat) : Bool := testBit map.bytes nr

def Full (map : Pidmap) : Prop := ∀ nr < maxPidnum, map.marked nr = true

instance (map : Pidmap) : Decidable map.Full := by unfold Full; infer_instance

end Pidmap

def initPidmap : Pidmap where
  bytes := (0x01 : Byte) :: List.replicate (maxPidnum / 8 - 1) 0
  length_eq := by simp [maxPidnum]

def getPidmap (map : Pidmap) : BitVec 32 × Pidmap :=
  (BitVec.ofInt 32 (setFirstBit map.bytes).1,
    ⟨(setFirstBit map.bytes).2, by
      unfold setFirstBit
      rw [length_setFirstBitFrom, map.length_eq]⟩)

def CallExact (map : Pidmap) : Prop :=
  if (getPidmap map).1 = -1 then map.Full
  else
    1 ≤ (getPidmap map).1.toNat ∧ (getPidmap map).1.toNat ≤ maxPidnum - 1 ∧
      map.marked (getPidmap map).1.toNat = false ∧
      ∀ nr < maxPidnum, (getPidmap map).2.marked nr =
        (map.marked nr || decide (nr = (getPidmap map).1.toNat))

instance (map : Pidmap) : Decidable (CallExact map) := by unfold CallExact; infer_instance

variable {map : Pidmap} {nr calls : Nat}

lemma CallExact.of_pid (callExact : CallExact map) (isPid : (getPidmap map).1 ≠ -1) :
    1 ≤ (getPidmap map).1.toNat ∧ (getPidmap map).1.toNat ≤ maxPidnum - 1 ∧
      map.marked (getPidmap map).1.toNat = false ∧
      ∀ nr < maxPidnum, (getPidmap map).2.marked nr =
        (map.marked nr || decide (nr = (getPidmap map).1.toNat)) := by
  unfold CallExact at callExact
  rwa [if_neg isPid] at callExact

lemma getLsbD_full {bit : Nat} (small : bit < 8) : (0xff : Byte).getLsbD bit = true := by
  rw [show (0xff : Byte) = BitVec.allOnes 8 from rfl, BitVec.getLsbD_allOnes]
  simpa using small

lemma Pidmap.full_of_bytes (bytesFull : ∀ ch ∈ map.bytes, ch = 0xff) : map.Full := by
  intro nr below
  have inside : nr / 8 < map.bytes.length := by
    rw [map.length_eq]
    unfold maxPidnum at *
    omega
  unfold Pidmap.marked testBit
  rw [List.getD_eq_getElem _ _ inside, bytesFull _ (List.getElem_mem inside)]
  exact getLsbD_full (Nat.mod_lt _ (by decide))

lemma getPidmap_spec (map : Pidmap) :
    (map.Full ∧ getPidmap map = (-1, map)) ∨
    ∃ p first, p < maxPidnum / 8 ∧ first < 8 ∧ (∀ q < p, map.bytes.getD q 0 = 0xff) ∧
      map.marked (8 * p + first) = false ∧ (getPidmap map).1.toNat = first + p ∧
      (getPidmap map).1 ≠ -1 ∧
      ∀ nr, (getPidmap map).2.marked nr = (map.marked nr || decide (nr = 8 * p + first)) := by
  rcases setFirstBitFrom_spec 0 map.bytes with ⟨bytesFull, res⟩ | ⟨p, first, pLt, firstLt,
    old, clear, value, marks⟩
  · refine .inl ⟨Pidmap.full_of_bytes bytesFull, ?_⟩
    unfold getPidmap setFirstBit
    simp only [res]
    rfl
  rw [map.length_eq] at pLt
  have small : first + p < 2 ^ 32 - 1 := by
    unfold maxPidnum at pLt
    omega
  have number : (getPidmap map).1.toNat = first + p := by
    show (BitVec.ofInt 32 (setFirstBitFrom 0 map.bytes).1).toNat = first + p
    rw [value, Nat.zero_add, BitVec.ofInt_natCast, BitVec.toNat_ofNat]
    exact Nat.mod_eq_of_lt (by omega)
  refine .inr ⟨p, first, pLt, firstLt, old, clear, number, ?_, marks⟩
  intro minusOne
  rw [minusOne] at number
  have : (-1 : BitVec 32).toNat = 2 ^ 32 - 1 := by decide
  omega

lemma callExact_iff (zeroMarked : map.marked 0 = true) :
    CallExact map ↔ map.bytes.getD 0 0 ≠ 0xff ∨ map.Full := by
  rcases getPidmap_spec map with ⟨full, res⟩ | ⟨p, first, _, firstLt, old, clear, number,
    notMinusOne, marks⟩
  · refine iff_of_true ?_ (.inr full)
    unfold CallExact
    rw [if_pos (congrArg Prod.fst res)]
    exact full
  have room : ¬map.Full := by
    intro full
    have set := full (8 * p + first) (by unfold maxPidnum at *; omega)
    rw [clear] at set
    cases set
  unfold CallExact
  rw [if_neg notMinusOne, number]
  constructor
  · rintro ⟨-, -, -, exact_⟩
    refine .inl fun headFull => ?_
    -- The bit that got marked is the one the call returns only in byte `0`.
    have same := exact_ (8 * p + first) (by unfold maxPidnum at *; omega)
    rw [marks] at same
    simp only [clear, decide_true, Bool.or_true, Bool.false_or] at same
    have index := of_decide_eq_true same.symm
    have atZero : p = 0 := by omega
    subst atZero
    unfold Pidmap.marked testBit at clear
    rw [show (8 * 0 + first) / 8 = 0 by omega, headFull,
      show (8 * 0 + first) % 8 = first by omega, getLsbD_full firstLt] at clear
    cases clear
  · intro headOrFull
    have headOpen := headOrFull.resolve_right room
    have atZero : p = 0 := by
      by_contra later
      exact headOpen (old 0 (Nat.pos_of_ne_zero later))
    subst atZero
    simp only [Nat.mul_zero, Nat.zero_add, Nat.add_zero] at clear marks ⊢
    refine ⟨?_, by unfold maxPidnum; omega, clear, fun nr _ => marks nr⟩
    by_contra atZero
    rw [show first = 0 by omega, zeroMarked] at clear
    cases clear

def pidmapAfter : Nat → Pidmap
  | 0 => initPidmap
  | calls + 1 => (getPidmap (pidmapAfter calls)).2

def pidOf (call : Nat) : BitVec 32 := (getPidmap (pidmapAfter call)).1

def PidsUnique (calls : Nat) : Prop :=
  (∀ call < calls, CallExact (pidmapAfter call)) ∧
    ∀ first second, first < second → second < calls → pidOf second ≠ -1 → pidOf first ≠ pidOf second

lemma marked_getPidmap (isMarked : map.marked nr = true) : (getPidmap map).2.marked nr = true := by
  rcases getPidmap_spec map with ⟨-, res⟩ | ⟨p, _, -, -, -, -, -, -, marks⟩
  · rw [res]
    exact isMarked
  · rw [marks, isMarked]
    rfl

lemma marked_pidmapAfter {from_ to_ : Nat} (ord : from_ ≤ to_)
    (isMarked : (pidmapAfter from_).marked nr = true) : (pidmapAfter to_).marked nr = true := by
  induction ord with
  | refl => exact isMarked
  | step _ ih => exact marked_getPidmap ih

lemma zero_marked (calls : Nat) : (pidmapAfter calls).marked 0 = true :=
  marked_pidmapAfter (Nat.zero_le calls) (by decide)

lemma pids_differ (allExact : ∀ call < calls, CallExact (pidmapAfter call))
    {first second : Nat} (ord : first < second) (below : second < calls)
    (isPid : pidOf second ≠ -1) : pidOf first ≠ pidOf second := by
  intro same
  obtain ⟨-, atMost, wasClear, -⟩ := (allExact second below).of_pid isPid
  have old := (allExact first (ord.trans below)).of_pid (fun bad => isPid (same ▸ bad))
  have marks := old.2.2.2 (pidOf second).toNat (Nat.lt_of_le_pred (by decide) atMost)
  rw [← same, show (getPidmap (pidmapAfter first)).1 = pidOf first from rfl, decide_eq_true rfl,
    Bool.or_true] at marks
  have kept := marked_pidmapAfter (Nat.succ_le_of_lt ord) marks
  rw [same] at kept
  exact absurd (kept.symm.trans wasClear) (by decide)

lemma pidmapAfter_seven :
    (pidmapAfter 7).bytes = 0xff :: List.replicate (maxPidnum / 8 - 1) 0 := by
  decide +kernel

lemma head_open (few : calls < 7) : (pidmapAfter calls).bytes.getD 0 0 ≠ 0xff := by
  interval_cases calls <;> decide +kernel

lemma not_callExact_seven : ¬CallExact (pidmapAfter 7) := by
  rw [callExact_iff (zero_marked 7), not_or]
  refine ⟨by rw [pidmapAfter_seven]; simp, ?_⟩
  intro full
  have set := full 8 (by decide)
  unfold Pidmap.marked at set
  rw [pidmapAfter_seven] at set
  revert set
  decide

/-- Identifiers are unique in exactly the runs of at most seven calls. -/
theorem pidsUnique_iff (calls : Nat) : PidsUnique calls ↔ calls ≤ 7 := by
  constructor
  · intro unique
    by_contra many
    exact not_callExact_seven (unique.1 7 (by omega))
  intro few
  have allExact : ∀ call < calls, CallExact (pidmapAfter call) := by
    intro call below
    rw [callExact_iff (zero_marked call)]
    exact .inl (head_open (by omega))
  exact ⟨allExact, fun _ _ ordered below isPid => pids_differ allExact ordered below isPid⟩

/-- The first call and the eighth both return `1`. -/
theorem pids_repeat_eighthCall : pidOf 0 = 1 ∧ pidOf 7 = 1 ∧ ¬PidsUnique 8 := by
  refine ⟨by decide +kernel, by decide +kernel, ?_⟩
  intro unique
  exact unique.2 0 7 (by decide) (by decide) (by decide +kernel) (by decide +kernel)

end PrettyOS.Kernel
