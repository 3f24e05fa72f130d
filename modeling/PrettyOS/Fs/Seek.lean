import PrettyOS.Fs.Descriptors
import PrettyOS.Fs.File

/-!
Contract: `general_file_lseek` of `fs/file.c` and `sys_lseek` of `fs/read_write.c`.

`f_pos` is a `loff_t` of 64 bits, `offset` a `long` and the result an `int` of 32.
-/

namespace PrettyOS.Fs

open Library Function BitVec

def ebadf : Int := 9

structure SeekCall where
  fd : BitVec 32
  offset : BitVec 32
  origin : BitVec 32

abbrev Positions := Nat → BitVec 64

def Positions.NonNegative (fPos : Positions) : Prop := ∀ fp, 0 ≤ (fPos fp).toInt

namespace OpenFiles

variable {t : OpenFiles} {call : SeekCall} {fPos : Positions}

def Seekable (t : OpenFiles) (fd : BitVec 32) : Prop :=
  ¬(fd.toInt ≤ 0 ∨ nrOpen ≤ fd.toInt ∨ t.filp fd.toInt = 0 ∨ (t.file (t.filp fd.toInt)).fInode = 0)

instance (t : OpenFiles) (fd : BitVec 32) : Decidable (t.Seekable fd) :=
  inferInstanceAs (Decidable ¬_)

def seekTarget (t : OpenFiles) (call : SeekCall) (fPos : Positions) : Option (BitVec 64) :=
  let fp := t.filp call.fd.toInt
  match call.origin.toNat with
  | 0 => some (call.offset.signExtend 64)
  | 1 => some (fPos fp + call.offset.signExtend 64)
  | 2 =>
      let tmp := BitVec.ofNat 32 (t.inodes.inode (t.file fp).fInode).iSize + call.offset
      some (tmp.signExtend 64)
  | _ => none

def sysLseek (t : OpenFiles) (call : SeekCall) (fPos : Positions) : BitVec 32 × Positions :=
  if t.Seekable call.fd then
    match t.seekTarget call fPos with
    | none => (BitVec.ofInt 32 (-einval), fPos)
    | some pos =>
        if pos.toInt < 0 then (BitVec.ofInt 32 (-einval), fPos)
        else (pos.setWidth 32, update fPos (t.filp call.fd.toInt) pos)
  else (BitVec.ofInt 32 (-ebadf), fPos)

def lseekStep (t : OpenFiles) (call : SeekCall) (fPos : Positions) :
    Option (BitVec 32 × Positions) :=
  some (t.sysLseek call fPos)

def ReportsPosition (t : OpenFiles) (call : SeekCall) (before : Positions) (ret : BitVec 32)
    (after : Positions) : Prop :=
  after.NonNegative ∧
    (ret.toInt < 0 ∧ after = before ∨ ret.toInt = (after (t.filp call.fd.toInt)).toInt)

def EndsInInt (t : OpenFiles) (call : SeekCall) (fPos : Positions) : Prop :=
  t.Seekable call.fd → call.origin = 1 →
    let moved := (fPos (t.filp call.fd.toInt)).toInt + call.offset.toInt
    moved < 2 ^ 31 ∨ 2 ^ 63 ≤ moved ∨ call.offset = 0 ∧ 2 ^ 31 ≤ moved % 2 ^ 32

lemma toInt_relative {pos : BitVec 64} {offset : BitVec 32} (nonneg : 0 ≤ pos.toInt) :
    (pos + offset.signExtend 64).toInt =
      if pos.toInt + offset.toInt < 2 ^ 63 then pos.toInt + offset.toInt
      else pos.toInt + offset.toInt - 2 ^ 64 := by
  have posBound := pos.toInt_lt
  have offsetBound := offset.toInt_lt
  have offsetFloor := offset.le_toInt
  rw [toInt_add, toInt_signExtend_of_le (by decide), Int.bmod_def]
  split_ifs <;> omega

lemma toInt_low_word {pos : BitVec 64} (nonneg : 0 ≤ pos.toInt) :
    (pos.setWidth 32).toInt =
      if pos.toInt % 2 ^ 32 < 2 ^ 31 then pos.toInt % 2 ^ 32 else pos.toInt % 2 ^ 32 - 2 ^ 32 := by
  have same : (pos.toNat : Int) = pos.toInt := by
    rw [toInt_eq_toNat_cond] at nonneg ⊢
    split_ifs at nonneg ⊢ <;> omega
  rw [toInt_setWidth, Int.bmod_def, same]
  split_ifs <;> omega

lemma seekTarget_lt {pos : BitVec 64} (target : t.seekTarget call fPos = some pos)
    (absolute : call.origin ≠ 1) : pos.toInt < 2 ^ 31 := by
  unfold seekTarget at target
  dsimp only at target
  split at target
  · cases target
    rw [toInt_signExtend_of_le (by decide)]
    exact BitVec.toInt_lt
  · next relative => exact absurd (BitVec.eq_of_toNat_eq relative) absolute
  · cases target
    rw [toInt_signExtend_of_le (by decide)]
    exact BitVec.toInt_lt
  · cases target

lemma seekTarget_relative (relative : call.origin = 1) :
    t.seekTarget call fPos = some (fPos (t.filp call.fd.toInt) + call.offset.signExtend 64) := by
  unfold seekTarget
  rw [relative]
  rfl

lemma einval_negative : (BitVec.ofInt 32 (-einval)).toInt < 0 := by decide

lemma ebadf_negative : (BitVec.ofInt 32 (-ebadf)).toInt < 0 := by decide

lemma reports_refused (nonneg : fPos.NonNegative) {code : BitVec 32}
    (neg : code.toInt < 0) : t.ReportsPosition call fPos code fPos :=
  ⟨nonneg, .inl ⟨neg, rfl⟩⟩

lemma reports_moved_iff {pos : BitVec 64} (nonneg : fPos.NonNegative) (acc : 0 ≤ pos.toInt) :
    t.ReportsPosition call fPos (pos.setWidth 32) (update fPos (t.filp call.fd.toInt) pos) ↔
      pos.toInt < 2 ^ 31 ∨ pos = fPos (t.filp call.fd.toInt) ∧ 2 ^ 31 ≤ pos.toInt % 2 ^ 32 := by
  have kept : Positions.NonNegative (update fPos (t.filp call.fd.toInt) pos) := by
    intro fp
    by_cases same : fp = t.filp call.fd.toInt
    · simpa [same] using acc
    · simpa [same] using nonneg fp
  unfold ReportsPosition
  rw [and_iff_right kept, update_eq_self_iff, update_self, toInt_low_word acc]
  split_ifs with low
  · omega
  constructor
  · rintro (⟨-, same⟩ | reported)
    · exact .inr ⟨same, by omega⟩
    · omega
  rintro (small | ⟨same, -⟩)
  · omega
  · exact .inl ⟨by omega, same⟩

lemma add_signExtend_eq_self_iff {pos : BitVec 64} {offset : BitVec 32} :
    pos + offset.signExtend 64 = pos ↔ offset = 0 := by
  constructor
  · intro same
    have zero : offset.signExtend 64 = 0#64 := by simpa using same
    have isZero := congrArg BitVec.toInt zero
    rw [toInt_signExtend_of_le (by decide)] at isZero
    exact BitVec.eq_of_toInt_eq isZero
  · rintro rfl
    exact BitVec.add_zero pos

lemma sysLseek_reports_iff (nonneg : fPos.NonNegative) :
    t.ReportsPosition call fPos (t.sysLseek call fPos).1 (t.sysLseek call fPos).2 ↔
      t.EndsInInt call fPos := by
  unfold sysLseek EndsInInt
  by_cases seekable : t.Seekable call.fd
  · rw [if_pos seekable]
    simp only [seekable, forall_const]
    by_cases relative : call.origin = 1
    · have start := nonneg (t.filp call.fd.toInt)
      have startBound := (fPos (t.filp call.fd.toInt)).toInt_lt
      have offsetBound := call.offset.toInt_lt
      have moved := @toInt_relative _ call.offset start
      simp only [seekTarget_relative relative, relative, forall_const]
      rw [← @add_signExtend_eq_self_iff (fPos (t.filp call.fd.toInt))]
      generalize fPos (t.filp call.fd.toInt) + call.offset.signExtend 64 = pos at moved ⊢
      by_cases neg : pos.toInt < 0
      · rw [if_pos neg]
        refine iff_of_true (reports_refused nonneg einval_negative) ?_
        split_ifs at moved <;> omega
      have below := pos.toInt_lt
      have lt : pos.toInt = (fPos (t.filp call.fd.toInt)).toInt + call.offset.toInt := by
        split_ifs at moved <;> omega
      rw [if_neg neg, reports_moved_iff nonneg (by omega), ← lt, or_iff_right (not_le.mpr below)]
    · refine iff_of_true ?_ (fun isRelative => absurd isRelative relative)
      cases target : t.seekTarget call fPos with
      | none => exact reports_refused nonneg einval_negative
      | some pos =>
        have small := seekTarget_lt target relative
        dsimp only
        split_ifs with neg
        · exact reports_refused nonneg einval_negative
        · exact (reports_moved_iff nonneg (by omega)).mpr (.inl small)
  · rw [if_neg seekable]
    exact iff_of_true (reports_refused nonneg ebadf_negative) (absurd · seekable)

theorem lseek_reports_iff {calls : List SeekCall} (nonneg : fPos.NonNegative) :
    ReturnsEach t.lseekStep t.ReportsPosition calls fPos ↔
      AtEach t.lseekStep t.EndsInInt calls fPos := by
  apply returnsEach_iff_atEach _ _ nonneg
  · intro call fPos nonneg
    rw [← sysLseek_reports_iff nonneg]
    constructor
    · rintro ⟨ret, after, isStep, reports⟩
      rwa [Option.some.inj isStep]
    · exact fun reports => ⟨_, _, rfl, reports⟩
  · intro call fPos ret after nonneg isStep ends
    have kept := ((sysLseek_reports_iff nonneg).mpr ends).1
    rwa [Option.some.inj isStep] at kept

def oneOpen : OpenFiles :=
  { rootFiles with
    filp := fun fd => if fd = 1 then 7 else 0
    file := fun _ => ⟨0, 0, 1, 0, rootFiles.inodes.rootInode⟩ }

def seekFar : SeekCall := ⟨1, 0x7fffffff, 1⟩

/-- Forward by 2^31 - 1, back by 7, and to position 5. -/
theorem lseek_reports_thrice :
    ReturnsEach oneOpen.lseekStep oneOpen.ReportsPosition
      [seekFar, ⟨1, -7, 1⟩, ⟨1, 5, 0⟩] fun _ => 0 := by
  apply (lseek_reports_iff fun _ => by decide).mpr
  refine ⟨fun _ _ => .inl (by decide), fun _ _ first => ?_⟩
  cases first
  refine ⟨fun _ _ => .inl (by decide), fun _ _ second => ?_⟩
  cases second
  exact ⟨fun _ relative => absurd relative (by decide), fun _ _ _ => trivial⟩

theorem lseek_misreports_twice :
    let once := (oneOpen.sysLseek seekFar fun _ => 0).2
    (oneOpen.sysLseek seekFar once).1.toInt = -2 ∧
      ((oneOpen.sysLseek seekFar once).2 7).toInt = 2 ^ 32 - 2 ∧
        ¬ReturnsEach oneOpen.lseekStep oneOpen.ReportsPosition [seekFar, seekFar] fun _ => 0 := by
  refine ⟨by decide, by decide, ?_⟩
  rintro ⟨_, _, first, -, _, _, second, ⟨-, reported⟩, -⟩
  cases first
  cases second
  rcases reported with ⟨-, unmoved⟩ | same
  · exact absurd (congrFun unmoved 7) (by decide)
  · exact absurd same (by decide)

end OpenFiles

end PrettyOS.Fs
