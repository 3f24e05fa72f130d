import PrettyOS.Fs.Namei

/-!
Contract: the slots of a directory's first sector, in memory and on disk.

Slots are as long as the pointer to an entry steps, so the last ones of a sector's count lie
behind the data area of its buffer. They are slots like the others here, but only in memory.
-/

namespace PrettyOS.Fs

open Library List Function Buffers
open Lib
open Fs.Buffers (Cached)

structure Name where
  chars : List Byte
  nonzero : ∀ ch ∈ chars, ch ≠ 0
deriving DecidableEq

def Name.length (name : Name) : Nat := name.chars.length

abbrev Slots := Nat → Option (Name × Nat)

def nrSlots : Nat := sectorSize / dentrySize

variable {slots : Slots} {name lookup : Name} {mem : Nat → Byte}
variable {ino j k data fuel room adds dev block bh losses : Nat} {s t : Storage}

def slotByte : Option (Name × Nat) → Nat → Byte
  | none, _ => 0
  | some (name, ino), i => if i < 2 then Lib.byteOf ino i else name.chars.getD (i - 2) 0

lemma slotByte_number {i : Nat} (low : i < 2) :
    slotByte (some (name, ino)) i = Lib.byteOf ino i := if_pos low

lemma slotByte_name {i : Nat} (high : 2 ≤ i) :
    slotByte (some (name, ino)) i = name.chars.getD (i - 2) 0 := if_neg (Nat.not_lt.mpr high)

def slotsByte (slots : Slots) (offset : Nat) : Byte :=
  slotByte (slots (offset / sizeofDentry)) (offset % sizeofDentry)

def extent (room : Nat) : Nat := max sectorSize (sizeofDentry * room)

def Shows (mem : Nat → Byte) (data room : Nat) (slots : Slots) : Prop :=
  ∀ offset < extent room, mem (data + offset) = slotsByte slots offset

structure Fitting (name : Name) (ino : Nat) : Prop where
  nonempty : 0 < name.length
  short : name.length ≤ 11
  inUse : 0 < ino
  word : ino < 2 ^ 16

section

variable (isShown : Shows mem data room slots) (inside : j < room)
include isShown inside

lemma byte_of_shows (i : Nat) (small : i < sizeofDentry) :
    mem (data + sizeofDentry * j + i) = slotByte (slots j) i := by
  have bound : sizeofDentry * j + i < extent room := by
    unfold extent sizeofDentry at *
    omega
  rw [Nat.add_assoc, isShown _ bound]
  unfold slotsByte sizeofDentry at *
  rw [show (20 * j + i) / 20 = j by omega, show (20 * j + i) % 20 = i by omega]

lemma inodeNum_shows :
    inodeNum mem (data + sizeofDentry * j) =
      (slotByte (slots j) 0).toNat + 2 ^ 8 * (slotByte (slots j) 1).toNat := by
  have low := byte_of_shows isShown inside 0 (by decide)
  have high := byte_of_shows isShown inside 1 (by decide)
  unfold inodeNum Lib.word16
  rw [high, ← low, Nat.add_zero]

lemma inodeNum_unused (slot : slots j = none) : inodeNum mem (data + sizeofDentry * j) = 0 := by
  rw [inodeNum_shows isShown inside, slot]
  rfl

lemma inodeNum_used (slot : slots j = some (name, ino)) (word : ino < 2 ^ 16) :
    inodeNum mem (data + sizeofDentry * j) = ino := by
  rw [inodeNum_shows isShown inside, slot, slotByte_number (by decide), slotByte_number (by decide)]
  unfold Lib.byteOf
  rw [BitVec.toNat_ofNat, BitVec.toNat_ofNat]
  omega

lemma spelled_shows (slot : slots j = some (name, ino)) (short : name.length ≤ 11) :
    Spelled mem (fileName (data + sizeofDentry * j)) name.chars := by
  have isChar : ∀ i ≤ 11, mem (fileName (data + sizeofDentry * j) + i) = name.chars.getD i 0 := by
    intro i small
    have byte := byte_of_shows isShown inside (i + 2) (by unfold sizeofDentry; omega)
    rw [slot] at byte
    unfold fileName
    rw [Nat.add_assoc, Nat.add_comm 2 i, byte, slotByte_name (by omega), Nat.add_sub_cancel]
  unfold Name.length at short
  refine ⟨fun i below => isChar i (by omega), name.nonzero, ?_⟩
  rw [isChar _ short]
  exact getD_eq_default _ _ le_rfl

end

def Matches (stored lookup : Name) : Prop :=
  stored = lookup ∨ lookup.length = nameLen ∧ stored.chars <+: lookup.chars

lemma getD_agree_iff {stored lookup : List Byte} (short : stored.length ≤ lookup.length) :
    (∀ i < stored.length, stored.getD i 0 = lookup.getD i 0) ↔ stored <+: lookup := by
  rw [prefix_iff_eq_take]
  constructor
  · intro same
    refine ext_getElem (by simp [short]) fun i below _ => ?_
    have agree := same i below
    rw [getD_eq_getElem _ _ below, getD_eq_getElem _ _ (by omega)] at agree
    rw [agree, getElem_take]
  · intro same i below
    rw [getD_eq_getElem _ _ below, getD_eq_getElem _ _ (by omega)]
    have agree := getElem_of_eq same below
    rw [agree, getElem_take]

lemma matches_of_short {stored : Name} (short : lookup.length < nameLen) :
    Matches stored lookup ↔ stored.length = lookup.length ∧ stored.chars <+: lookup.chars := by
  constructor
  · rintro (rfl | ⟨_, -⟩)
    · exact ⟨rfl, prefix_rfl⟩
    · omega
  rintro ⟨sameLen, begins⟩
  left
  cases stored
  cases lookup
  congr
  exact begins.eq_of_length sameLen

lemma matches_of_twelve {stored : Name} (twelve : lookup.length = nameLen) :
    Matches stored lookup ↔ stored.chars <+: lookup.chars := by
  constructor
  · rintro (rfl | ⟨-, begins⟩)
    · exact prefix_rfl
    · exact begins
  · intro begins
    exact .inr ⟨twelve, begins⟩

lemma not_matches_of_long {stored : Name} (long : nameLen < lookup.length)
    (short : stored.length ≤ 11) : ¬Matches stored lookup := by
  unfold nameLen at long
  rintro (rfl | ⟨twelve, -⟩)
  · omega
  · unfold nameLen at twelve
    omega

lemma compare_spelled {de : Nat} {stored : Name} (lookup : Name) (ne0 : de ≠ 0)
    (inUse : inodeNum mem de ≠ 0) (spelled : Spelled mem (fileName de) stored.chars)
    (ne : 0 < stored.length) (short : stored.length ≤ 11) (enough : nameLen ≤ fuel) :
    ∃ ret, compare fuel mem de lookup.chars lookup.length = some ret ∧
      (ret = 0 ↔ Matches stored lookup) := by
  have fuelled := lt_of_le_of_lt short enough
  have agrees : 0 < lookup.length → stored.length ≤ lookup.length →
      ∃ ret, strncmp fuel mem (fileName de) lookup.chars lookup.length = some ret ∧
        (ret = 0 ↔ stored.chars <+: lookup.chars) := by
    intro pos shorter
    obtain ⟨ret, isRet, isZero⟩ := strncmp_returns lookup.chars spelled fuelled pos
    refine ⟨ret, isRet, isZero.trans ?_⟩
    unfold Name.length at shorter ⊢
    rw [Nat.min_eq_left shorter, Nat.min_eq_right shorter, getD_agree_iff shorter]
  have passes : lookup.length ≤ nameLen →
      ¬(de = 0 ∨ inodeNum mem de = 0 ∨ nameLen < lookup.length) :=
    fun fits => not_or.mpr ⟨ne0, not_or.mpr ⟨inUse, Nat.not_lt.mpr fits⟩⟩
  unfold compare
  rcases Nat.lt_trichotomy lookup.length nameLen with less | twelve | more
  · rw [if_neg (passes less.le), if_pos less, strlen_eq spelled fuelled, Option.bind_some]
    by_cases sameLen : lookup.length = stored.chars.length
    · obtain ⟨ret, isRet, isZero⟩ := agrees (sameLen ▸ ne) sameLen.ge
      rw [if_neg (not_not.mpr sameLen)]
      refine ⟨ret, isRet, isZero.trans ?_⟩
      exact (and_iff_right sameLen.symm).symm.trans (matches_of_short less).symm
    · rw [if_pos sameLen]
      refine ⟨-1, rfl, iff_of_false (by decide) fun isMatch => ?_⟩
      exact sameLen ((matches_of_short less).mp isMatch).1.symm
  · rw [if_neg (passes twelve.le), if_neg twelve.not_lt, matches_of_twelve twelve]
    exact agrees (by rw [twelve]; decide) (twelve ▸ short.trans (by decide))
  · rw [if_pos (.inr (.inr more))]
    exact ⟨-1, rfl, iff_of_false (by decide) (not_matches_of_long more short)⟩

structure Tidy (slots : Slots) (room adds : Nat) : Prop where
  visited : room ≤ nrSlots
  few : adds ≤ room
  high : ∀ j, adds ≤ j → slots j = none
  fitting : ∀ j name ino, slots j = some (name, ino) → Fitting name ino
  distinct : ∀ j k name first second, slots j = some (name, first) → slots k = some (name, second) →
    j = k

def Hit (slots : Slots) (lookup : Name) (k ino : Nat) : Prop :=
  ∃ stored, slots k = some (stored, ino) ∧ Matches stored lookup

lemma Tidy.lt_adds {entry : Name × Nat} (tidy : Tidy slots room adds)
    (slot : slots j = some entry) : j < adds := by
  by_contra out
  rw [tidy.high j (Nat.le_of_not_lt out)] at slot
  cases slot

section

variable (isShown : Shows mem data room slots)
include isShown

section

variable (ne0 : data ≠ 0) (tidy : Tidy slots room adds) (enough : nameLen ≤ fuel)
include ne0 tidy enough

lemma compare_slot (inside : j < adds) (lookup : Name) :
    inodeNum mem (data + sizeofDentry * j) = 0 ∧ (∀ ino, ¬Hit slots lookup j ino) ∨
    inodeNum mem (data + sizeofDentry * j) ≠ 0 ∧ ∃ ret,
      compare fuel mem (data + sizeofDentry * j) lookup.chars lookup.length = some ret ∧
        (ret = 0 → ∃ ino, Hit slots lookup j ino) ∧ (ret ≠ 0 → ∀ ino, ¬Hit slots lookup j ino) := by
  have inRoom : j < room := inside.trans_le tidy.few
  cases slot : slots j with
  | none =>
    refine .inl ⟨inodeNum_unused isShown inRoom slot, ?_⟩
    rintro ino ⟨stored, here, -⟩
    rw [slot] at here
    cases here
  | some entry =>
    obtain ⟨stored, ino⟩ := entry
    obtain ⟨ne, short, inUse, word⟩ := tidy.fitting j stored ino slot
    have used : inodeNum mem (data + sizeofDentry * j) ≠ 0 := by
      rw [inodeNum_used isShown inRoom slot word]
      exact inUse.ne'
    obtain ⟨ret, isRet, isZero⟩ := compare_spelled lookup
      (Nat.ne_of_gt (Nat.lt_add_right _ (Nat.pos_of_ne_zero ne0))) used
      (spelled_shows isShown inRoom slot short) ne short enough
    refine .inr ⟨used, ret, isRet, fun isMatch => ⟨ino, stored, slot, isZero.mp isMatch⟩, ?_⟩
    rintro noMatch other ⟨_, here, isMatching⟩
    rw [slot] at here
    cases here
    exact noMatch (isZero.mpr isMatching)

lemma scanEntries_shows {entries : Nat} (total : j + entries = nrSlots) (within : j ≤ adds)
    (before : ∀ k < j, ∀ ino, ¬Hit slots lookup k ino) : (∃ k ino, Hit slots lookup k ino ∧
      scanEntries fuel mem data adds lookup.chars lookup.length entries j =
        some (.found (data + sizeofDentry * k))) ∨ (∀ k ino, ¬Hit slots lookup k ino) ∧
      scanEntries fuel mem data adds lookup.chars lookup.length entries j =
        some (if adds < nrSlots then .beyond else .ended) := by
  have all : (∀ k < adds, ∀ ino, ¬Hit slots lookup k ino) → ∀ k ino, ¬Hit slots lookup k ino := by
    intro none k ino isHit
    obtain ⟨_, slot, -⟩ := id isHit
    exact none k (tidy.lt_adds slot) ino isHit
  have visited := tidy.visited
  have few := tidy.few
  induction entries generalizing j with
  | zero =>
    rw [scanEntries, if_neg (by omega)]
    exact .inr ⟨all fun k below => before k (by omega), rfl⟩
  | succ entries ih =>
    rw [scanEntries]
    by_cases last : adds < j + 1
    · rw [if_pos last, if_pos (by omega)]
      exact .inr ⟨all fun k below => before k (by omega), rfl⟩
    have next : (∀ ino, ¬Hit slots lookup j ino) →
        ∀ k < j + 1, ∀ ino, ¬Hit slots lookup k ino := by
      intro notHere k below ino
      rcases Nat.lt_succ_iff_lt_or_eq.mp below with old | rfl
      · exact before k old ino
      · exact notHere ino
    rw [if_neg last]
    rcases compare_slot isShown ne0 tidy enough (Nat.not_lt.mp last) lookup with
      ⟨unused, notHere⟩ | ⟨used, ret, isRet, isHit, noHit⟩
    · rw [if_pos unused]
      exact ih (by omega) (by omega) (next notHere)
    rw [if_neg used, isRet, Option.bind_some]
    by_cases isMatch : ret = 0
    · obtain ⟨ino, here⟩ := isHit isMatch
      rw [if_neg (not_not.mpr isMatch)]
      exact .inl ⟨j, ino, here, rfl⟩
    · rw [if_pos isMatch]
      exact ih (by omega) (by omega) (next (noHit isMatch))

end

lemma firstUnused_shows (tidy : Tidy slots room adds)
    (more : adds < room) : ∃ j ≤ adds, slots j = none ∧ firstUnused mem data = some j := by
  have visited := tidy.visited
  have free : ∃ j < nrSlots, inodeNum mem (data + sizeofDentry * j) = 0 :=
    ⟨adds, by omega, inodeNum_unused isShown more (tidy.high adds le_rfl)⟩
  cases found : firstUnused mem data with
  | none =>
    obtain ⟨j, below, isFree⟩ := free
    have inUse := find?_eq_none.mp found j (mem_range.mpr below)
    exact absurd (decide_eq_true isFree) inUse
  | some j =>
    unfold firstUnused at found
    rw [find?_range_eq_some] at found
    obtain ⟨isFree, -, first⟩ := found
    have early : j ≤ adds := by
      by_contra late
      have inUse := first adds (Nat.lt_of_not_le late)
      rw [inodeNum_unused isShown more (tidy.high adds le_rfl)] at inUse
      exact absurd inUse (by decide)
    refine ⟨j, early, ?_, rfl⟩
    cases slot : slots j with
    | none => rfl
    | some entry =>
      obtain ⟨stored, ino⟩ := entry
      have fits := tidy.fitting j stored ino slot
      have number := inodeNum_used isShown (by omega) slot fits.word
      exact absurd (number.symm.trans (of_decide_eq_true isFree)) fits.inUse.ne'

lemma Shows.rewrite {rewritten : Nat → Byte} {entry : Option (Name × Nat)}
    (inside : ∀ i < sizeofDentry, rewritten (data + sizeofDentry * j + i) = slotByte entry i)
    (out : ∀ addr, addr < data + sizeofDentry * j ∨
      data + sizeofDentry * j + sizeofDentry ≤ addr → rewritten addr = mem addr) :
    Shows rewritten data room (update slots j entry) := by
  intro offset below
  have split := Nat.div_add_mod offset sizeofDentry
  have small : offset % sizeofDentry < sizeofDentry := Nat.mod_lt _ (by decide)
  unfold slotsByte
  by_cases same : offset / sizeofDentry = j
  · rw [same] at split
    have byte := inside _ small
    rw [Nat.add_assoc, split] at byte
    rw [byte, same, update_self]
  rw [update_of_ne same]
  refine (out _ ?_).trans (isShown offset below)
  unfold sizeofDentry at *
  omega

end

lemma Shows.clearEntry (isShown : Shows s.mem data room slots) (inside : j < room)
    (slot : slots j = some (name, ino)) (short : name.length ≤ 11) :
    Shows (clearEntry (data + sizeofDentry * j) s).mem data room
      (update slots j none) := by
  dsimp only [PrettyOS.Fs.clearEntry]
  refine isShown.rewrite (fun i small => ?_) fun addr out => ?_
  · by_cases cleared : i < dentrySize
    · exact overwrite_add cleared
    refine (overwrite_of_outside (.inr (by omega))).trans ?_
    unfold dentrySize Name.length at *
    rw [byte_of_shows isShown inside i small, slot, slotByte_name (by omega),
      getD_eq_default _ _ (by omega)]
    rfl
  · refine overwrite_of_outside ?_
    unfold dentrySize sizeofDentry at *
    omega

lemma Shows.fillEntry (isShown : Shows s.mem data room slots) (inside : j < room)
    (slot : slots j = none) (fits : Fitting name ino) :
    Shows (fillEntry (data + sizeofDentry * j) ino name.chars s).mem data room
      (update slots j (some (name, ino))) := by
  obtain ⟨ne, short, -, -⟩ := fits
  unfold Name.length at ne short
  have copied : min (name.chars.length + 1) (max 1 name.chars.length) = name.chars.length := by
    omega
  dsimp only [PrettyOS.Fs.fillEntry, strncpy, fileName, Lib.store]
  rw [copied]
  refine isShown.rewrite (fun i small => ?_) fun addr out => ?_
  · by_cases isNumber : i < 2
    · rw [overwrite_of_outside (.inl (by omega)), overwrite_add isNumber, slotByte_number isNumber]
    obtain ⟨i, rfl⟩ := Nat.exists_eq_add_of_le (Nat.le_of_not_lt isNumber)
    rw [slotByte_name (by omega), ← Nat.add_assoc, Nat.add_sub_cancel_left]
    by_cases isChar : i < name.chars.length
    · exact overwrite_add isChar
    rw [overwrite_of_outside (.inr (by omega)), overwrite_of_outside (.inr (by omega)),
      Nat.add_assoc, byte_of_shows isShown inside _ small, slot,
      getD_eq_default _ _ (by omega)]
    rfl
  · unfold sizeofDentry at *
    rw [overwrite_of_outside (by omega), overwrite_of_outside (by omega)]

/-- The buffer is held, and its count has room for `losses` references that are not given back. -/
structure Spares (bh losses : Nat) (c : Buffers) : Prop where
  held : c.bCount bh ≠ 0
  room : c.bCount bh + losses < 256

structure Stored (fuel dev block room losses : Nat) (slots : Slots) (s : Storage) : Prop where
  sector : ∀ offset < sectorSize, s.disk dev block offset = slotsByte slots offset
  backed : ∃ bh cache, s.cache.getblk fuel dev block = some (bh, cache) ∧ Spares bh losses cache ∧
    s.cache.bData bh ≠ 0 ∧ ∀ offset, sectorSize ≤ offset → offset < sizeofDentry * room →
      s.mem (s.cache.bData bh + offset) = slotsByte slots offset

structure Fetched (fuel dev block bh room losses : Nat) (slots : Slots) (s : Storage) : Prop where
  cached : Cached fuel dev block bh s.cache
  spares : Spares bh losses s.cache
  nonnull : s.cache.bData bh ≠ 0
  isShown : Shows s.mem (s.cache.bData bh) room slots
  sector : ∀ offset < sectorSize, s.disk dev block offset = slotsByte slots offset

lemma Stored.mono {fewer : Nat} (stored : Stored fuel dev block room losses slots s)
    (le : fewer ≤ losses) : Stored fuel dev block room fewer slots s := by
  obtain ⟨sector, bh, cache, ran, spares, behind⟩ := stored
  exact ⟨sector, bh, cache, ran, ⟨spares.held, by have := spares.room; omega⟩, behind⟩

lemma Stored.fetch (stored : Stored fuel dev block room losses slots s) (device : dev ≠ 0)
    (short : dev < 2 ^ 16) : ∃ bh t, s.getblk fuel dev block = some (bh, t) ∧
      Fetched fuel dev block bh room losses slots (t.hdRead dev block bh) := by
  obtain ⟨bh, cache, ran, spares, ne0, behind⟩ := stored.backed
  have sameData := (sameAreas_getblk ran).data
  refine ⟨bh, { s with cache := cache }, ?_, cached_getblk device short ran, spares, ?_, ?_,
    stored.sector⟩
  · unfold Storage.getblk
    rw [ran]
    rfl
  · exact sameData ▸ ne0
  intro offset below
  by_cases onDisk : offset < sectorSize
  · exact (Storage.mem_hdRead onDisk).trans (stored.sector offset onDisk)
  refine (overwrite_of_outside (.inr ?_)).trans ?_
  · exact Nat.add_le_add_left (Nat.le_of_not_lt onDisk) _
  have inRoom : offset < sizeofDentry * room := by
    unfold extent at below
    omega
  show s.mem (cache.bData bh + offset) = slotsByte slots offset
  rw [sameData]
  exact behind offset (Nat.le_of_not_lt onDisk) inRoom

/-- A reference that is not given back is one loss. -/
lemma Fetched.stored (fetched : Fetched fuel dev block bh room (losses + 1) slots s) :
    Stored fuel dev block room losses slots s := by
  have room := fetched.spares.room
  refine ⟨fetched.sector, bh, _, fetched.cached.getblk, ?_, fetched.nonnull, ?_⟩
  · constructor
    · show update s.cache.bCount bh _ bh ≠ 0
      rw [update_self]
      omega
    · show update s.cache.bCount bh _ bh + losses < 256
      rw [update_self]
      omega
  · intro offset _ below
    exact fetched.isShown offset (lt_of_lt_of_le below (le_max_right _ _))

section

variable (fetched : Fetched fuel dev block bh room losses slots s)
include fetched

lemma Fetched.brelse :
    ∃ t, s.brelse bh = some t ∧ t.mem = s.mem ∧ Stored fuel dev block room losses slots t := by
  obtain ⟨cached, ⟨held, small⟩, ne0, isShown, sector⟩ := fetched
  have same : ((s.cache.bCount bh + 255) % 256 + 1) % 256 = s.cache.bCount bh := by omega
  refine ⟨{ s with cache := s.cache.setCount bh ((s.cache.bCount bh + 255) % 256) }, ?_, rfl,
    sector, bh, _, (cached.setCount _ _).getblk, ?_, ne0, fun offset _ below => ?_⟩
  · unfold Storage.brelse
    rw [brelse_eq cached.nonnull cached.unlocked held]
    rfl
  · constructor
    · show update (update s.cache.bCount bh _) bh ((update s.cache.bCount bh _ bh + 1) % 256) bh ≠ 0
      rw [update_self, update_self, same]
      exact held
    · show update (update s.cache.bCount bh _) bh ((update s.cache.bCount bh _ bh + 1) % 256) bh +
        losses < 256
      rw [update_self, update_self, same]
      exact small
  · exact isShown offset (lt_of_lt_of_le below (le_max_right _ _))

lemma Fetched.hdWrite {rewritten : Slots} (t : Storage) (sameCache : t.cache = s.cache)
    (isShown : Shows t.mem (t.cache.bData bh) room rewritten) :
    Fetched fuel dev block bh room losses rewritten (t.hdWrite dev block bh) := by
  refine ⟨?_, ?_, ?_, isShown, fun offset inside => ?_⟩
  · show Cached fuel dev block bh t.cache
    rw [sameCache]
    exact fetched.cached
  · show Spares bh losses t.cache
    rw [sameCache]
    exact fetched.spares
  · show t.cache.bData bh ≠ 0
    rw [sameCache]
    exact fetched.nonnull
  · rw [Storage.disk_hdWrite_same inside]
    exact isShown offset (lt_of_lt_of_le inside (le_max_left _ _))

end

end PrettyOS.Fs
