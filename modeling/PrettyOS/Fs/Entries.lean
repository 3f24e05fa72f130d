import PrettyOS.Fs.Slots

/-!
Contract: what `compare` decides about a stored name, and where the entries of a sector lie.

The first character after a component is a `0` or a slash; `compare` looks at neither.
-/

namespace PrettyOS.Fs

open Library List Nat
open Lib

variable {mem : Nat → Byte} {fuel de : Nat} {name : List Byte} (rest : List Byte)

/-- The bytes up to the first `0`, at most `room` of them. -/
def storedFrom (mem : Nat → Byte) : Nat → Nat → List Byte
  | 0, _ => []
  | room + 1, str => if mem str = 0 then [] else mem str :: storedFrom mem room (str + 1)

/-- The name in an entry. -/
def storedName (mem : Nat → Byte) (de : Nat) : List Byte := storedFrom mem nameLen (fileName de)

lemma spelled_cons {str : Nat} {text : List Byte} (ne0 : mem str ≠ 0)
    (spelled : Spelled mem (str + 1) text) : Spelled mem str (mem str :: text) := by
  obtain ⟨chars, others, stop⟩ := spelled
  refine ⟨?_, forall_mem_cons.mpr ⟨ne0, others⟩, ?_⟩
  · intro i below
    cases i with
    | zero => rfl
    | succ i =>
      have isChar := chars i (lt_of_succ_lt_succ below)
      rwa [add_right_comm] at isChar
  · rwa [add_right_comm] at stop

lemma exists_spelled_of_strlen {str length : Nat} (ends : strlen mem fuel str = some length) :
    ∃ text, Spelled mem str text ∧ text.length = length ∧ length < fuel := by
  induction fuel generalizing str length with
  | zero => cases ends
  | succ fuel ih =>
    rw [strlen] at ends
    split_ifs at ends with isZero
    · cases ends
      have empty : Spelled mem str [] :=
        ⟨fun _ low => absurd low (not_lt_zero _), fun _ isIn => absurd isIn not_mem_nil, isZero⟩
      exact ⟨[], empty, rfl, succ_pos fuel⟩
    · obtain ⟨_, isLess, rfl⟩ := Option.map_eq_some_iff.mp ends
      obtain ⟨text, spelled, sameLen, enough⟩ := ih isLess
      exact ⟨_, spelled_cons isZero spelled, congrArg (· + 1) sameLen, succ_lt_succ enough⟩

lemma storedFrom_eq_take {str : Nat} {text : List Byte} (spelled : Spelled mem str text)
    (room : Nat) : storedFrom mem room str = text.take room := by
  induction text generalizing str room with
  | nil =>
    cases room with
    | zero => rfl
    | succ room => exact if_pos spelled.stop
  | cons ch text ih =>
    cases room with
    | zero => rfl
    | succ room =>
      have first : mem str = ch := spelled.chars 0 (succ_pos _)
      have ne0 := spelled.nonzero ch mem_cons_self
      have others : Spelled mem (str + 1) text := by
        refine ⟨?_, fun other member => spelled.nonzero other (mem_cons_of_mem _ member), ?_⟩
        · intro i below
          have isChar := spelled.chars (i + 1) (succ_lt_succ below)
          rwa [← add_assoc, add_right_comm] at isChar
        · have stop := spelled.stop
          rwa [length_cons, ← add_assoc, add_right_comm] at stop
      rw [storedFrom, if_neg (first ▸ ne0), first, ih others room, take_succ_cons]

/-- `strncmp` compares the characters of the stored name up to its end. -/
lemma strncmp_begins {text : List Byte} (spelled : Spelled mem (fileName de) text)
    (enough : text.length < fuel) (pos : 0 < name.length) :
    ∃ ret, strncmp fuel mem (fileName de) (name ++ rest) name.length = some ret ∧
      (ret = 0 ↔ text.take name.length <+: name) := by
  obtain ⟨ret, isRet, isZero⟩ := strncmp_returns (name ++ rest) spelled enough pos
  refine ⟨ret, isRet, isZero.trans ?_⟩
  have sameLen : min name.length (min text.length (name ++ rest).length) =
      (text.take name.length).length := by
    rw [length_take, length_append]
    omega
  rw [← getD_agree_iff (by simp), sameLen, length_take]
  refine forall₂_congr fun i below => ?_
  rw [getD_append _ _ _ _ (by omega), getD_eq_getElem _ _ (by omega : i < text.length),
    getD_eq_getElem (text.take name.length) _ (by simp; omega), getElem_take]

/-- `compare` takes the stored name for any name of full length that it begins. -/
lemma compare_zero_iff {length : Nat} (ne0 : de ≠ 0) (inUse : inodeNum mem de ≠ 0)
    (pos : 0 < name.length) (fits : name.length ≤ nameLen)
    (ends : strlen mem fuel (fileName de) = some length) :
    ∃ ret, compare fuel mem de (name ++ rest) name.length = some ret ∧
      (ret = 0 ↔ storedName mem de = name ∨
        name.length = nameLen ∧ storedName mem de <+: name) := by
  obtain ⟨text, spelled, rfl, enough⟩ := exists_spelled_of_strlen ends
  obtain ⟨ret, isRet, isZero⟩ := strncmp_begins rest spelled enough pos
  have passes := not_or.mpr ⟨ne0, not_or.mpr ⟨inUse, not_lt.mpr fits⟩⟩
  unfold compare storedName
  rw [if_neg passes, storedFrom_eq_take spelled]
  by_cases short : name.length < nameLen
  · rw [if_pos short, ends, Option.bind_some]
    simp only [short.ne, false_and, or_false]
    by_cases sameLen : name.length = text.length
    · have whole : text.take nameLen = text := take_of_length_le (by omega)
      rw [sameLen, take_length] at isZero
      rw [if_neg (not_not.mpr sameLen), whole]
      exact ⟨ret, isRet, isZero.trans ⟨fun begins => begins.eq_of_length sameLen.symm,
        fun same => same ▸ prefix_rfl⟩⟩
    · rw [if_pos sameLen]
      refine ⟨-1, rfl, iff_of_false (by decide) fun same => sameLen ?_⟩
      rw [← same, length_take] at short ⊢
      omega
  · have twelve : name.length = nameLen := by omega
    rw [if_neg short]
    refine ⟨ret, isRet, ?_⟩
    rw [isZero, twelve]
    exact ⟨fun begins => .inr ⟨rfl, begins⟩, fun either => either.elim (· ▸ prefix_rfl) And.right⟩

/-- `compare` decides equality for all names but those of full length of which the entry stores a
proper beginning. -/
theorem compare_decides_iff {length : Nat} (nonnull : de ≠ 0) (inUse : inodeNum mem de ≠ 0)
    (positive : 0 < name.length) (fits : name.length ≤ nameLen)
    (ends : strlen mem fuel (fileName de) = some length) :
    ∃ ret, compare fuel mem de (name ++ rest) name.length = some ret ∧
      ((ret = 0 ↔ storedName mem de = name) ↔
        ¬(name.length = nameLen ∧ storedName mem de <+: name ∧ storedName mem de ≠ name)) := by
  obtain ⟨ret, isRet, isZero⟩ := compare_zero_iff rest nonnull inUse positive fits ends
  refine ⟨ret, isRet, ?_⟩
  rw [isZero]
  tauto

/-- An entry for inode 5 with the name `a`. -/
def entryA : Nat → Byte := fun address =>
  if address = 100 then 5 else if address = 102 then 97 else 0

theorem compare_decides_a :
    ∃ ret, compare 12 entryA 100 ([97] ++ [0x2f, 98]) 1 = some ret ∧
      (ret = 0 ↔ storedName entryA 100 = [97]) := by
  obtain ⟨ret, isRet, decides⟩ := @compare_decides_iff entryA 12 100 [97] [0x2f, 98] 1
    (by decide) (by decide) (by decide) (by decide) rfl
  exact ⟨ret, isRet, decides.mpr (by decide)⟩

/-- The name `a` of an entry is taken for a name of twelve characters that begins with it. -/
theorem compare_takes_beginning :
    compare 12 entryA 100 (97 :: replicate 11 98) 12 = some 0 ∧
      storedName entryA 100 = [97] ∧ storedName entryA 100 ≠ 97 :: replicate 11 98 := by
  decide

/-- `scanEntries` with the numbers of the entries it reads. -/
def scanEntriesLog (fuel : Nat) (mem : Nat → Byte) (data nrDentry : Nat) (name : List Byte)
    (namelen : Nat) : Nat → Nat → Option (List Nat × Scan)
  | 0, _ => some ([], .ended)
  | entries + 1, j =>
      let de := data + sizeofDentry * j
      let next := (scanEntriesLog fuel mem data nrDentry name namelen entries (j + 1)).map
        fun (slots, scan) => (j :: slots, scan)
      if nrDentry < j + 1 then some ([], .beyond)
      else if inodeNum mem de = 0 then next
      else (compare fuel mem de name namelen).bind fun ret =>
        if ret ≠ 0 then next else some ([j], .found de)

/-- The entries of a sector that `add_entry` reads: up to the first one not in use. -/
def unusedLog (mem : Nat → Byte) (data : Nat) : List Nat :=
  match firstUnused mem data with
  | none => List.range (sectorSize / dentrySize)
  | some j => List.range (j + 1)

lemma scanEntriesLog_snd (data nrDentry namelen entries j : Nat) :
    (scanEntriesLog fuel mem data nrDentry name namelen entries j).map Prod.snd =
      scanEntries fuel mem data nrDentry name namelen entries j := by
  induction entries generalizing j with
  | zero => rfl
  | succ entries ih =>
    have next : ((scanEntriesLog fuel mem data nrDentry name namelen entries (j + 1)).map
        fun (slots, scan) => (j :: slots, scan)).map Prod.snd =
          scanEntries fuel mem data nrDentry name namelen entries (j + 1) := by
      rw [← ih, Option.map_map]
      rfl
    rw [scanEntries, scanEntriesLog]
    dsimp only
    split_ifs
    · rfl
    · exact next
    cases compare fuel mem (data + sizeofDentry * j) name namelen with
    | none => rfl
    | some ret =>
      simp only [Option.bind_some]
      split_ifs
      · exact next
      · rfl

/-- The entries lie in the buffer, and no two of them share a byte. -/
def SlotsSafe (slots : List Nat) : Prop :=
  (∀ j ∈ slots, sizeofDentry * j + sizeofDentry ≤ sectorSize) ∧
    ∀ j ∈ slots, ∀ k ∈ slots, j < k → sizeofDentry * j + sizeofDentry ≤ sizeofDentry * k

/-- Of the 32 entries a sector is scanned for, 25 lie in it. -/
lemma slotsSafe_iff {slots : List Nat} : SlotsSafe slots ↔ ∀ j ∈ slots, j < 25 := by
  unfold SlotsSafe sizeofDentry sectorSize
  refine ⟨fun safe j member => ?_, fun low => ⟨fun j member => ?_, fun j _ k _ less => ?_⟩⟩
  · have := safe.1 j member
    omega
  · have := low j member
    omega
  · omega

/-- One round of the search: the directory has no more entries, the entry matches, or the search
goes on. -/
lemma scanEntriesLog_succ {data nrDentry namelen entries j : Nat} {slots : List Nat} {scan : Scan}
    (scanned : scanEntriesLog fuel mem data nrDentry name namelen (entries + 1) j =
      some (slots, scan)) :
    nrDentry ≤ j ∧ slots = [] ∨ j < nrDentry ∧ slots = [j] ∧ (∀ n, ∃ de,
        scanEntries fuel mem data nrDentry name namelen (n + 1) j = some (.found de)) ∨
      j < nrDentry ∧ ∃ others, slots = j :: others ∧
        scanEntriesLog fuel mem data nrDentry name namelen entries (j + 1) = some (others, scan) ∧
        ∀ n, scanEntries fuel mem data nrDentry name namelen (n + 1) j =
          scanEntries fuel mem data nrDentry name namelen n (j + 1) := by
  rw [scanEntriesLog] at scanned
  simp only [scanEntries]
  by_cases beyond : nrDentry < j + 1
  · simp only [if_pos beyond] at scanned
    cases scanned
    exact .inl ⟨by omega, rfl⟩
  simp only [if_neg beyond] at scanned ⊢
  refine .inr ?_
  by_cases unused : inodeNum mem (data + sizeofDentry * j) = 0
  · simp only [if_pos unused] at scanned ⊢
    obtain ⟨⟨others, last⟩, isRest, same⟩ := Option.map_eq_some_iff.mp scanned
    cases same
    exact .inr ⟨by omega, others, rfl, isRest, fun _ => trivial⟩
  simp only [if_neg unused] at scanned ⊢
  obtain ⟨ret, isRet, scanned⟩ := Option.bind_eq_some_iff.mp scanned
  simp only [isRet, Option.bind_some]
  by_cases differs : ret ≠ 0
  · rw [if_pos differs] at scanned
    obtain ⟨⟨others, last⟩, isRest, same⟩ := Option.map_eq_some_iff.mp scanned
    cases same
    exact .inr ⟨by omega, others, rfl, isRest, fun _ => if_pos differs⟩
  · rw [if_neg differs] at scanned
    cases scanned
    exact .inl ⟨by omega, rfl, fun _ => ⟨_, if_neg differs⟩⟩

/-- The search stops before entry number `j + entries`: the directory has no more, or one of
the entries from `j` on matches. -/
lemma scanEntriesLog_below_iff {data nrDentry namelen entries more j : Nat} {slots : List Nat}
    {scan : Scan} (scanned : scanEntriesLog fuel mem data nrDentry name namelen
      (entries + (more + 1)) j = some (slots, scan)) :
    (∀ k ∈ slots, k < j + entries) ↔ nrDentry ≤ j + entries ∨
      ∃ de, scanEntries fuel mem data nrDentry name namelen entries j = some (.found de) := by
  induction entries generalizing j slots with
  | zero =>
    rw [zero_add] at scanned
    rcases scanEntriesLog_succ scanned with ⟨few, rfl⟩ | ⟨more, rfl, -⟩ | ⟨more, others, rfl, -⟩
    · simp [few]
    · simp [scanEntries, more]
    · simp [scanEntries, more]
  | succ entries ih =>
    rw [succ_add] at scanned
    rcases scanEntriesLog_succ scanned with
      ⟨few, rfl⟩ | ⟨-, rfl, found⟩ | ⟨more, others, rfl, isRest, goesOn⟩
    · exact iff_of_true (fun _ isIn => absurd isIn not_mem_nil) (.inl (by omega))
    · exact iff_of_true (by simp) (.inr (found entries))
    rw [goesOn, forall_mem_cons, and_iff_right (by omega), add_comm entries 1, ← add_assoc]
    exact ih isRest

lemma unusedLog_below_iff {data : Nat} :
    (∀ j ∈ unusedLog mem data, j < 25) ↔ ∃ j < 25, inodeNum mem (data + sizeofDentry * j) = 0 := by
  unfold unusedLog
  cases found : firstUnused mem data with
  | none =>
    refine iff_of_false (fun low => absurd (low 31 (by decide)) (by decide)) ?_
    rintro ⟨j, small, unused⟩
    have used := find?_eq_none.mp found j (mem_range.mpr (small.trans (by decide)))
    simp [unused] at used
  | some j =>
    obtain ⟨unused, -, old⟩ := find?_range_eq_some.mp found
    constructor
    · intro low
      exact ⟨j, low j (mem_range.mpr (lt_succ_self j)), of_decide_eq_true unused⟩
    rintro ⟨k, small, isUnused⟩ other member
    by_contra high
    have used := old k (by have := mem_range.mp member; omega)
    simp [isUnused] at used

lemma cleared_iff {s : Storage} : (∀ i < sizeofDentry, (clearEntry de s).mem (de + i) = 0) ↔
    ∀ i < sizeofDentry, dentrySize ≤ i → s.mem (de + i) = 0 := by
  refine forall₂_congr fun i _ => ?_
  dsimp only [clearEntry]
  by_cases low : i < dentrySize
  · rw [overwrite_add low]
    exact iff_of_true rfl fun high => absurd low (not_lt.mpr high)
  · rw [imp_iff_right (not_lt.mp low), overwrite_of_outside (.inr (by omega))]

/-- The entries that `do_entry` and `add_entry` read lie in the sector exactly if the scan stops
within the first 25, and an entry is cleared exactly if it was clear behind its first 16 bytes. -/
theorem slots_inside_iff {data nrDentry namelen : Nat} {slots : List Nat} {scan : Scan}
    (scanned : scanEntriesLog fuel mem data nrDentry name namelen nrSlots 0 = some (slots, scan)) :
    (SlotsSafe slots ↔ nrDentry ≤ 25 ∨
        ∃ de, scanEntries fuel mem data nrDentry name namelen 25 0 = some (.found de)) ∧
      (SlotsSafe (unusedLog mem data) ↔ ∃ j < 25, inodeNum mem (data + sizeofDentry * j) = 0) ∧
      ∀ de s, (∀ i < sizeofDentry, (clearEntry de s).mem (de + i) = 0) ↔
        ∀ i < sizeofDentry, dentrySize ≤ i → s.mem (de + i) = 0 := by
  have below := @scanEntriesLog_below_iff _ _ _ _ _ _ 25 6 _ _ _ scanned
  rw [zero_add] at below
  rw [slotsSafe_iff, slotsSafe_iff]
  exact ⟨below, unusedLog_below_iff, fun _ _ => cleared_iff⟩

/-- Entries for the inodes 5, 6 and 7 with the names `a`, `b` and `c`. -/
def threeEntries : Nat → Byte := fun address =>
  if address < 160 ∧ address % 20 = 0 then .ofNat 8 (address / 20)
  else if address < 160 ∧ address % 20 = 2 then .ofNat 8 (92 + address / 20)
  else 0

theorem slots_inside_threeEntries :
    ∃ slots, scanEntriesLog 12 threeEntries 100 3 [99] 1 nrSlots 0 = some (slots, .found 140) ∧
      SlotsSafe slots ∧ SlotsSafe (unusedLog threeEntries 100) := by
  have scanned : scanEntriesLog 12 threeEntries 100 3 [99] 1 nrSlots 0 =
      some ([0, 1, 2], .found 140) := by decide
  have inside := slots_inside_iff scanned
  exact ⟨_, scanned, inside.1.mpr (.inl (by decide)), inside.2.1.mpr ⟨3, by decide, by decide⟩⟩

/-- A search that counts 32 entries in a sector reads seven of them beyond its end, and a cleared
entry keeps its last four bytes. -/
theorem slots_leave_sector :
    scanEntriesLog 12 entryA 100 32 [98] 1 nrSlots 0 = some (List.range 32, .ended) ∧
      ¬SlotsSafe (List.range 32) ∧
      (clearEntry 100 { Storage.blank with mem := fun _ => 0xff }).mem (100 + 16) = 0xff := by
  refine ⟨by decide, ?_, by decide⟩
  rw [slotsSafe_iff]
  exact fun low => absurd (low 31 (by decide)) (by decide)

end PrettyOS.Fs
