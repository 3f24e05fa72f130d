import PrettyOS.Fs.Slots

/-!
Contract: a directory as a map from names to inode numbers.
-/

namespace PrettyOS.Fs

open Library Option
open Function
open Lib

variable {slots : Slots} {name lookup : Name} {dir : MInode} {s t : Storage} {sb : SuperBlock}
variable {ino fuel room losses adds j k : Nat} {flag : EntryUse}

structure Lists (fuel room losses : Nat) (dir : MInode) (slots : Slots) (adds : Nat) (s : Storage) :
    Prop where
  device : dir.iDev ≠ 0
  short : dir.iDev < 2 ^ 16
  start : dir.iData 0 ≠ 0
  size : dir.iSize = dentrySize * adds
  tidy : Tidy slots room adds
  stored : Stored fuel dir.iDev (dir.iData 0) room losses slots s

lemma Lists.mono {fewer : Nat} (lists : Lists fuel room losses dir slots adds s)
    (le : fewer ≤ losses) : Lists fuel room fewer dir slots adds s :=
  { lists with stored := lists.stored.mono le }

def EntryUse.slotsAfter : EntryUse → Slots → Nat → Slots
  | .deMatch, slots, _ => slots
  | .deDel, slots, k => update slots k none

lemma Tidy.update_none (tidy : Tidy slots room adds) (k : Nat) :
    Tidy (update slots k none) room adds := by
  have kept : ∀ j entry, update slots k none j = some entry → slots j = some entry := by
    intro j entry slot
    by_cases same : j = k
    · rw [same, update_self] at slot
      cases slot
    · rwa [update_of_ne same] at slot
  refine ⟨tidy.visited, tidy.few, fun j late => ?_, fun j name ino slot => ?_, ?_⟩
  · by_cases same : j = k
    · rw [same, update_self]
    · rw [update_of_ne same, tidy.high j late]
  · exact tidy.fitting j name ino (kept j _ slot)
  · intro j k name first second here there
    exact tidy.distinct j k name first second (kept j _ here) (kept k _ there)

lemma Tidy.update_some (tidy : Tidy slots room adds) (more : adds < room) (early : j ≤ adds)
    (fits : Fitting name ino) (absent : ∀ k other, slots k ≠ some (name, other)) :
    Tidy (update slots j (some (name, ino))) room (adds + 1) := by
  have cases : ∀ k entry, update slots j (some (name, ino)) k = some entry →
      k = j ∧ entry = (name, ino) ∨ k ≠ j ∧ slots k = some entry := by
    intro k entry slot
    by_cases same : k = j
    · rw [same, update_self] at slot
      exact .inl ⟨same, (some_inj.mp slot).symm⟩
    · rw [update_of_ne same] at slot
      exact .inr ⟨same, slot⟩
  refine ⟨tidy.visited, more, fun k late => ?_, fun k stored number slot => ?_, ?_⟩
  · rw [update_of_ne (by omega), tidy.high k (by omega)]
  · rcases cases k _ slot with ⟨-, same⟩ | ⟨-, slot⟩
    · cases same
      exact fits
    · exact tidy.fitting k stored number slot
  intro first second stored firstIno secondIno here there
  rcases cases first _ here with ⟨rfl, same⟩ | ⟨-, here⟩
  · cases same
    rcases cases second _ there with ⟨rfl, -⟩ | ⟨-, there⟩
    · rfl
    · exact absurd there (absent _ _)
  rcases cases second _ there with ⟨-, same⟩ | ⟨-, there⟩
  · cases same
    exact absurd here (absent _ _)
  · exact tidy.distinct first second stored firstIno secondIno here there

lemma doEntry_fresh (size : dir.iSize = 0) (lookup : Name) (flag : EntryUse) :
    doEntry fuel dir lookup.chars lookup.length flag s = some (-2, none, s) := by
  unfold doEntry
  rw [size]
  rfl

section

variable (lists : Lists fuel room losses dir slots adds s)
include lists

lemma doEntry_scans (used : adds ≠ 0) (lookup : Name) (flag : EntryUse) :
    ∃ bh read, Fetched fuel dir.iDev (dir.iData 0) bh room losses slots read ∧
      doEntry fuel dir lookup.chars lookup.length flag s =
        (scanEntries fuel read.mem (read.cache.bData bh) adds lookup.chars lookup.length nrSlots
          0).bind (endEntry dir.iDev (dir.iData 0) bh flag read) := by
  obtain ⟨device, short, _, size, _, stored⟩ := lists
  obtain ⟨bh, t, ran, fetched⟩ := stored.fetch device short
  have someSector : (dir.iSize + (sectorSize - 1)) / sectorSize ≠ 0 := by
    unfold dentrySize sectorSize at *
    omega
  have cnt : dir.iSize / dentrySize = adds := by
    rw [size, Nat.mul_div_cancel_left adds (by decide)]
  refine ⟨bh, _, fetched, ?_⟩
  unfold doEntry getFirstBlock
  dsimp only
  rw [if_neg someSector, ran, bind_some, cnt]
  rfl

lemma endEntry_found {bh : Nat}
    (fetched : Fetched fuel dir.iDev (dir.iData 0) bh room losses slots t)
    (slot : slots k = some (name, ino)) (flag : EntryUse) :
    ∃ after, endEntry dir.iDev (dir.iData 0) bh flag t
        (.found (t.cache.bData bh + sizeofDentry * k)) =
          some (0, some (t.cache.bData bh + sizeofDentry * k), after) ∧
      (flag = .deMatch → inodeNum after.mem (t.cache.bData bh + sizeofDentry * k) = ino) ∧
      Lists fuel room losses dir (flag.slotsAfter slots k) adds after := by
  obtain ⟨device, short, start, size, tidy, -⟩ := lists
  have inside : k < room := (tidy.lt_adds slot).trans_le tidy.few
  obtain ⟨-, nameShort, -, word⟩ := tidy.fitting k name ino slot
  unfold endEntry
  cases flag with
  | deMatch =>
    obtain ⟨released, freed, eqMem, still⟩ := fetched.brelse
    refine ⟨released, ?_, fun _ => ?_, device, short, start, size, tidy, still⟩
    · dsimp only
      rw [freed]
      rfl
    · rw [eqMem]
      exact inodeNum_used fetched.isShown inside slot word
  | deDel =>
    have cleared := fetched.isShown.clearEntry inside slot nameShort
    have wrote := fetched.hdWrite (clearEntry _ t) rfl cleared
    obtain ⟨released, freed, -, still⟩ := wrote.brelse
    refine ⟨released, ?_, nofun, device, short, start, size, tidy.update_none k, still⟩
    dsimp only
    rw [freed]
    rfl

lemma endEntry_missed {bh : Nat}
    (fetched : Fetched fuel dir.iDev (dir.iData 0) bh room losses slots t)
    (flag : EntryUse) :
    ∃ ret after, endEntry dir.iDev (dir.iData 0) bh flag t
        (if adds < nrSlots then .beyond else .ended) = some (ret, none, after) ∧
      (ret = 0 ↔ nrSlots ≤ adds) ∧
      ∀ left, losses = left + 1 → Lists fuel room left dir slots adds after := by
  obtain ⟨device, short, start, size, tidy, -⟩ := lists
  by_cases few : adds < nrSlots
  · rw [if_pos few]
    refine ⟨-1, t, rfl, iff_of_false (by decide) (Nat.not_le.mpr few), ?_⟩
    rintro left rfl
    exact ⟨device, short, start, size, tidy, fetched.stored⟩
  obtain ⟨released, freed, -, still⟩ := fetched.brelse
  rw [if_neg few]
  refine ⟨0, released, ?_, iff_of_true rfl (Nat.le_of_not_lt few), ?_⟩
  rotate_left
  · rintro left rfl
    exact ⟨device, short, start, size, tidy, still.mono (Nat.le_succ left)⟩
  unfold endEntry
  dsimp only
  rw [freed]
  rfl

lemma doEntry_lists (enough : nameLen ≤ fuel) (lookup : Name) (flag : EntryUse) :
    (∃ k ino de t, Hit slots lookup k ino ∧
      doEntry fuel dir lookup.chars lookup.length flag s = some (0, some de, t) ∧
      (flag = .deMatch → inodeNum t.mem de = ino) ∧
      Lists fuel room losses dir (flag.slotsAfter slots k) adds t) ∨
    (∀ k ino, ¬Hit slots lookup k ino) ∧ ∃ ret t,
      doEntry fuel dir lookup.chars lookup.length flag s = some (ret, none, t) ∧
      (ret = 0 ↔ nrSlots ≤ adds) ∧
      ∀ left, losses = left + 1 → Lists fuel room left dir slots adds t := by
  by_cases used : adds = 0
  · refine .inr ⟨?_, -2, s, doEntry_fresh (lists.size.trans (by rw [used]; rfl)) lookup flag,
      iff_of_false (by decide) (by rw [used]; decide), fun left same => lists.mono (by omega)⟩
    rintro k ino ⟨stored, slot, -⟩
    exact Nat.not_lt_zero k (used ▸ lists.tidy.lt_adds slot)
  obtain ⟨_, _, fetched, scans⟩ := doEntry_scans lists used lookup flag
  rcases scanEntries_shows fetched.isShown fetched.nonnull lists.tidy enough
      (Nat.zero_add nrSlots) (Nat.zero_le _)
      (fun k below => absurd below (Nat.not_lt_zero k)) with
    ⟨k, ino, isHit, scan⟩ | ⟨noHit, scan⟩
  · rw [scan, bind_some] at scans
    obtain ⟨stored, slot, -⟩ := id isHit
    obtain ⟨after, ran, number, still⟩ := endEntry_found lists fetched slot flag
    exact .inl ⟨k, ino, _, after, isHit, scans.trans ran, number, still⟩
  · rw [scan, bind_some] at scans
    obtain ⟨ret, after, ran, isZero, still⟩ := endEntry_missed lists fetched flag
    exact .inr ⟨noHit, ret, after, scans.trans ran, isZero, still⟩

lemma addEntry_lists (more : adds < room) (fits : Fitting name ino)
    (absent : ∀ k other, slots k ≠ some (name, other)) :
    ∃ j grown t, slots j = none ∧ addEntry fuel sb dir ino name.chars s = some (0, grown, t) ∧
      Lists fuel room losses grown (update slots j (some (name, ino))) (adds + 1) t := by
  obtain ⟨device, short, start, _, tidy, stored⟩ := lists
  obtain ⟨bh, t, ran, fetched⟩ := stored.fetch device short
  obtain ⟨j, early, free, found⟩ := firstUnused_shows fetched.isShown tidy more
  have filled := fetched.isShown.fillEntry (by omega) free fits
  have wrote := fetched.hdWrite (fillEntry _ ino name.chars (t.hdRead _ _ bh)) rfl filled
  obtain ⟨released, freed, -, still⟩ := wrote.brelse
  refine ⟨j, { dir with iSize := (dir.iSize + dentrySize) % 2 ^ 16, iDirty := 1 }, released, free,
    ?_, device, short, start, ?_, tidy.update_some more early fits absent, still⟩
  · unfold addEntry getFirstBlock
    rw [if_neg start]
    unfold nrDefaultSects
    rw [addLoop, Nat.add_zero, ran, bind_some]
    dsimp only
    rw [found]
    dsimp only
    rw [freed]
    rfl
  · have visited := tidy.visited
    unfold nrSlots at visited
    unfold dentrySize sectorSize at *
    dsimp only
    omega

end

structure Catalog where
  number : Name → Option Nat
  adds : Nat

inductive DirCall where
  | add (ino : Nat) (name : Name)
  | del (name : Name)
  | find (name : Name)

namespace Catalog

def empty : Catalog := ⟨fun _ => none, 0⟩

def record (catalog : Catalog) : DirCall → Catalog
  | .add ino name => ⟨update catalog.number name (some ino), catalog.adds + 1⟩
  | .del name => { catalog with number := update catalog.number name none }
  | .find _ => catalog

def recordAll (calls : List DirCall) (catalog : Catalog) : Catalog := calls.foldl record catalog

def Extended (catalog : Catalog) (lookup : Name) : Prop :=
  lookup.length = nameLen ∧
    ∃ stored ino, catalog.number stored = some ino ∧ stored.chars <+: lookup.chars

def Allows (room : Nat) (catalog : Catalog) : DirCall → Prop
  | .add ino name => catalog.number name = none ∧ Fitting name ino ∧ catalog.adds < room
  | .del name => ¬catalog.Extended name
  | .find _ => True

/-- A call that does not find its name does not give the directory's buffer back. -/
def lost (catalog : Catalog) : DirCall → Nat
  | .add _ _ => 0
  | .del name => if (catalog.number name).isNone then 1 else 0
  | .find name => if (catalog.number name).isNone then 1 else 0

def lostAll : List DirCall → Catalog → Nat
  | [], _ => 0
  | call :: calls, catalog => catalog.lost call + lostAll calls (catalog.record call)

def AllowsAll (room : Nat) : List DirCall → Catalog → Prop
  | [], _ => True
  | call :: calls, catalog => catalog.Allows room call ∧ AllowsAll room calls (catalog.record call)

end Catalog

def DirCall.run (fuel : Nat) (sb : SuperBlock) (call : DirCall) (state : MInode × Storage) :
    Option (MInode × Storage) :=
  match call with
  | .add ino name =>
      (addEntry fuel sb state.1 ino name.chars state.2).map fun result => (result.2.1, result.2.2)
  | .del name =>
      (delEntry fuel state.1 name.chars name.length state.2).map fun result =>
        (state.1, result.2.2)
  | .find name =>
      (findEntry fuel state.1 name.chars name.length state.2).map fun result =>
        (state.1, result.2.2)

def runCalls (fuel : Nat) (sb : SuperBlock) : List DirCall → MInode × Storage →
    Option (MInode × Storage)
  | [], state => some state
  | call :: calls, state => (call.run fuel sb state).bind (runCalls fuel sb calls)

def FindsExactly (fuel : Nat) (catalog : Catalog) (state : MInode × Storage) (lookup : Name) :
    Prop :=
  ∃ ret de t, findEntry fuel state.1 lookup.chars lookup.length state.2 = some (ret, de, t) ∧
    (∀ ino, (ret = 0 ∧ ∃ entry, de = some entry ∧ inodeNum t.mem entry = ino) ↔
      catalog.number lookup = some ino) ∧
    (catalog.number lookup = none → ret ≠ 0)

def Represents (slots : Slots) (catalog : Catalog) : Prop :=
  ∀ name ino, catalog.number name = some ino ↔ ∃ j, slots j = some (name, ino)

def Refines (fuel room losses : Nat) (catalog : Catalog) (state : MInode × Storage) : Prop :=
  ∃ slots, Lists fuel room losses state.1 slots catalog.adds state.2 ∧ Represents slots catalog

variable {catalog : Catalog} {state : MInode × Storage} {call : DirCall} {calls : List DirCall}

section

variable (represents : Represents slots catalog)
include represents

lemma Represents.absent (isNone : catalog.number name = none) (k ino : Nat) :
    slots k ≠ some (name, ino) := by
  intro slot
  have here := (represents name ino).mpr ⟨k, slot⟩
  rw [isNone] at here
  cases here

lemma Represents.of_hit (isHit : Hit slots lookup k ino) :
    slots k = some (lookup, ino) ∨ catalog.Extended lookup := by
  obtain ⟨stored, slot, rfl | ⟨twelve, begins⟩⟩ := isHit
  · exact .inl slot
  · exact .inr ⟨twelve, stored, ino, (represents stored ino).mpr ⟨k, slot⟩, begins⟩

lemma Represents.of_noHit (noHit : ∀ k ino, ¬Hit slots lookup k ino) :
    catalog.number lookup = none ∧ ¬catalog.Extended lookup := by
  constructor
  · rw [eq_none_iff_forall_ne_some]
    intro ino here
    obtain ⟨k, slot⟩ := (represents lookup ino).mp here
    exact noHit k ino ⟨lookup, slot, .inl rfl⟩
  · rintro ⟨twelve, stored, ino, here, begins⟩
    obtain ⟨k, slot⟩ := (represents stored ino).mp here
    exact noHit k ino ⟨stored, slot, .inr ⟨twelve, begins⟩⟩

lemma Represents.number_extended (tidy : Tidy slots room adds)
    (ext : catalog.Extended lookup) : catalog.number lookup = none := by
  rw [eq_none_iff_forall_ne_some]
  intro ino here
  obtain ⟨k, slot⟩ := (represents lookup ino).mp here
  have short := (tidy.fitting k lookup ino slot).short
  rw [ext.1] at short
  exact absurd short (by decide)

lemma Represents.add (free : slots j = none) (isNone : catalog.number name = none) (ino : Nat) :
    Represents (update slots j (some (name, ino))) (catalog.record (.add ino name)) := by
  intro other number
  show update catalog.number name (some ino) other = some number ↔ _
  by_cases same : other = name
  · subst same
    rw [update_self]
    constructor
    · intro isNumber
      exact ⟨j, by rw [update_self, some_inj.mp isNumber]⟩
    rintro ⟨k, slot⟩
    by_cases here : k = j
    · rw [here, update_self] at slot
      cases slot
      rfl
    · rw [update_of_ne here] at slot
      exact absurd slot (represents.absent isNone k number)
  · rw [update_of_ne same, represents other number]
    refine exists_congr fun k => ?_
    by_cases here : k = j
    · rw [here, update_self, free]
      refine iff_of_false nofun fun slot => same ?_
      cases slot
      rfl
    · rw [update_of_ne here]

lemma Represents.del (tidy : Tidy slots room adds) (slot : slots k = some (name, ino)) :
    Represents (update slots k none) (catalog.record (.del name)) := by
  intro other number
  show update catalog.number name none other = some number ↔ _
  by_cases same : other = name
  · subst same
    rw [update_self]
    refine iff_of_false nofun ?_
    rintro ⟨j, here⟩
    by_cases removed : j = k
    · rw [removed, update_self] at here
      cases here
    · rw [update_of_ne removed] at here
      exact removed (tidy.distinct j k other number ino here slot)
  · rw [update_of_ne same, represents other number]
    refine exists_congr fun j => ?_
    by_cases removed : j = k
    · rw [removed, update_self, slot]
      refine iff_of_false (fun here => same ?_) nofun
      cases here
      rfl
    · rw [update_of_ne removed]

end

section

variable (enough : nameLen ≤ fuel)
include enough

lemma refines_run (refines : Refines fuel room (catalog.lost call + losses) catalog state)
    (allowed : catalog.Allows room call) :
    ∃ after, call.run fuel sb state = some after ∧
      Refines fuel room losses (catalog.record call) after := by
  have kept : losses ≤ catalog.lost call + losses := Nat.le_add_left _ _
  have missed : ∀ name, call = .del name ∨ call = .find name → catalog.number name = none →
      catalog.lost call + losses = losses + 1 := by
    rintro name (rfl | rfl) isNone
    all_goals
      rw [Catalog.lost, isNone, Nat.add_comm]
      rfl
  obtain ⟨slots, lists, represents⟩ := refines
  cases call with
  | add ino name =>
    obtain ⟨isNone, fits, more⟩ := allowed
    obtain ⟨j, grown, t, free, ran, still⟩ :=
      @addEntry_lists _ _ _ _ sb _ _ _ _ _ lists more fits (represents.absent isNone)
    exact ⟨(grown, t), congrArg (Option.map _) ran, _, still.mono kept,
      represents.add free isNone ino⟩
  | del name =>
    rcases doEntry_lists lists enough name .deDel with
      ⟨k, ino, de, t, isHit, ran, -, still⟩ | ⟨noHit, ret, t, ran, -, still⟩
    · have slot := (represents.of_hit isHit).resolve_right allowed
      exact ⟨(state.1, t), congrArg (Option.map _) ran, _, still.mono kept,
        represents.del lists.tidy slot⟩
    have isNone := (represents.of_noHit noHit).1
    have same : update catalog.number name none = catalog.number :=
      update_eq_self_iff.mpr isNone.symm
    refine ⟨(state.1, t), congrArg (Option.map _) ran, slots,
      still losses (missed name (.inl rfl) isNone), ?_⟩
    show Represents slots { catalog with number := update catalog.number name none }
    rw [same]
    exact represents
  | find name =>
    rcases doEntry_lists lists enough name .deMatch with
      ⟨k, ino, de, t, -, ran, -, still⟩ | ⟨noHit, ret, t, ran, -, still⟩
    · exact ⟨(state.1, t), congrArg (Option.map _) ran, slots, still.mono kept, represents⟩
    · exact ⟨(state.1, t), congrArg (Option.map _) ran, slots,
        still losses (missed name (.inr rfl) (represents.of_noHit noHit).1), represents⟩

lemma refines_runCalls (refines : Refines fuel room (Catalog.lostAll calls catalog) catalog state)
    (allowed : catalog.AllowsAll room calls) :
    ∃ after, runCalls fuel sb calls state = some after ∧
      Refines fuel room 0 (catalog.recordAll calls) after := by
  induction calls generalizing catalog state with
  | nil => exact ⟨state, rfl, refines⟩
  | cons call calls ih =>
    obtain ⟨_, ran, step⟩ := @refines_run sb _ _ _ _ _ _ enough refines allowed.1
    obtain ⟨after, rest, still⟩ := ih step allowed.2
    refine ⟨after, ?_, still⟩
    unfold runCalls
    rw [ran]
    exact rest

end

lemma Refines.findsExactly_iff (refines : Refines fuel room losses catalog state)
    (enough : nameLen ≤ fuel) (lookup : Name) :
    FindsExactly fuel catalog state lookup ↔
      ¬catalog.Extended lookup ∧ (catalog.number lookup = none → catalog.adds < nrSlots) := by
  obtain ⟨_, lists, represents⟩ := refines
  unfold FindsExactly findEntry
  rcases doEntry_lists lists enough lookup .deMatch with
    ⟨k, ino, de, t, isHit, ran, number, -⟩ | ⟨noHit, ret, t, ran, isZero, -⟩
  · rw [ran]
    rcases represents.of_hit isHit with slot | extended
    · have here := (represents lookup ino).mpr ⟨k, slot⟩
      refine iff_of_true ⟨0, some de, t, rfl, fun other => ?_, fun isNone => ?_⟩
        ⟨fun extended => ?_, fun isNone => ?_⟩
      · rw [here, some_inj]
        constructor
        · rintro ⟨-, _, same, isOther⟩
          cases same
          exact (number rfl).symm.trans isOther
        · rintro rfl
          exact ⟨rfl, de, rfl, number rfl⟩
      · rw [here] at isNone
        cases isNone
      · rw [represents.number_extended lists.tidy extended] at here
        cases here
      · rw [here] at isNone
        cases isNone
    · have isNone := represents.number_extended lists.tidy extended
      refine iff_of_false ?_ fun exact => exact.1 extended
      rintro ⟨ret, de, t, same, -, ne0⟩
      cases same
      exact ne0 isNone rfl
  · obtain ⟨isNone, plain⟩ := represents.of_noHit noHit
    rw [ran]
    constructor
    · rintro ⟨ret, de, t, same, -, ne0⟩
      cases same
      exact ⟨plain, fun _ => Nat.lt_of_not_le fun many => ne0 isNone (isZero.mpr many)⟩
    rintro ⟨-, few⟩
    refine ⟨ret, none, t, rfl, fun ino => ?_, fun _ isRet => ?_⟩
    · rw [isNone]
      exact iff_of_false (fun ⟨_, _, same, _⟩ => by cases same) nofun
    · exact absurd (isZero.mp isRet) (Nat.not_le.mpr (few isNone))

structure Fresh (fuel room losses : Nat) (dir : MInode) (s : Storage) : Prop where
  device : dir.iDev ≠ 0
  short : dir.iDev < 2 ^ 16
  start : dir.iData 0 ≠ 0
  size : dir.iSize = 0
  zero : ∀ offset < sectorSize, s.disk dir.iDev (dir.iData 0) offset = 0
  backed : ∃ bh cache, s.cache.getblk fuel dir.iDev (dir.iData 0) = some (bh, cache) ∧
    Spares bh losses cache ∧ s.cache.bData bh ≠ 0 ∧ ∀ offset, sectorSize ≤ offset →
      offset < sizeofDentry * room → s.mem (s.cache.bData bh + offset) = 0

lemma Fresh.refines (fresh : Fresh fuel room losses dir s) (visited : room ≤ nrSlots) :
    Refines fuel room losses Catalog.empty (dir, s) := by
  obtain ⟨device, short, start, size, zero, backed⟩ := fresh
  refine ⟨fun _ => none, ⟨device, short, start, size, ⟨visited, Nat.zero_le _, fun _ _ => rfl,
    nofun, nofun⟩, zero, backed⟩, fun name ino => iff_of_false nofun ?_⟩
  rintro ⟨_, slot⟩
  cases slot

/-- After every run of allowed calls, a lookup is exact unless its name has twelve characters
and starts with a name that is there, or it is not there and entries were added `nrSlots`
times. -/
theorem findsExactly_runCalls_iff
    (fresh : Fresh fuel room (Catalog.empty.lostAll calls) dir s) (visited : room ≤ nrSlots)
    (enough : nameLen ≤ fuel) (allowed : Catalog.empty.AllowsAll room calls) (lookup : Name) :
    ∃ after, runCalls fuel sb calls (dir, s) = some after ∧
      (FindsExactly fuel (Catalog.empty.recordAll calls) after lookup ↔
        ¬(Catalog.empty.recordAll calls).Extended lookup ∧
          ((Catalog.empty.recordAll calls).number lookup = none →
            (Catalog.empty.recordAll calls).adds < nrSlots)) := by
  obtain ⟨after, returned, refines⟩ := refines_runCalls enough (fresh.refines visited) allowed
  exact ⟨after, returned, refines.findsExactly_iff enough lookup⟩

def emptyDir : MInode := { clearedInode with iData := fun k => 600 + k, iDev := rootDev, iNum := 1 }

lemma fresh_emptyDir (room : Nat) : Fresh 12 room 0 emptyDir Storage.blank :=
  ⟨by decide, by decide, by decide, rfl, fun _ _ => rfl, 0x100000, _, rfl,
    ⟨by decide, by decide⟩, by decide, fun _ _ _ => rfl⟩

def Name.single (ch : Byte) (nonzero : ch ≠ 0) : Name :=
  ⟨[ch], fun _ member => List.mem_singleton.mp member ▸ nonzero⟩

def nameX : Name := Name.single 120 (by decide)

def nameY : Name := Name.single 121 (by decide)

/-- Two names are added and one of them is deleted. -/
theorem findsExactly_addAddDel :
    ∃ after, runCalls 12 formattedSuperBlock [.add 7 nameX, .add 8 nameY, .del nameX]
        (emptyDir, Storage.blank) = some after ∧
      FindsExactly 12 (Catalog.empty.recordAll [.add 7 nameX, .add 8 nameY, .del nameX]) after
        nameY := by
  obtain ⟨after, returned, isExact⟩ := @findsExactly_runCalls_iff emptyDir Storage.blank
    formattedSuperBlock 12 25 [.add 7 nameX, .add 8 nameY, .del nameX] (fresh_emptyDir 25)
    (by decide) le_rfl
    ⟨⟨rfl, ⟨by decide, by decide, by decide, by decide⟩, by decide⟩,
      ⟨rfl, ⟨by decide, by decide, by decide, by decide⟩, by decide⟩,
      fun extended => absurd extended.1 (by decide), trivial⟩ nameY
  exact ⟨after, returned,
    isExact.mpr ⟨fun extended => absurd extended.1 (by decide), fun _ => by decide⟩⟩

def churn : Nat → List DirCall
  | 0 => []
  | n + 1 => .add 1 nameX :: .del nameX :: churn n

/-- When `x` was added and deleted 32 times, the directory is empty, but `y` is found in it: the
call returns `0` and leaves no entry. -/
theorem absent_found :
    (Catalog.empty.recordAll (churn 32)).number nameY = none ∧
      ((runCalls 12 formattedSuperBlock (churn 32) (emptyDir, Storage.blank)).bind fun after =>
        (findEntry 12 after.1 nameY.chars nameY.length after.2).map fun result =>
          (result.1, result.2.1)) = some (0, none) := by
  decide +kernel

end PrettyOS.Fs
