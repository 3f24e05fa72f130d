import PrettyOS.Fs.InodeStore
import PrettyOS.Fs.MapBits

/-!
Contract: the lookup of paths in `fs/namei.c`.

A path is the list of its characters without the terminating `0`. The object that the slab cache has
to give is a function of the state, and what a variable on the stack holds before it is set is an
argument.
-/

namespace PrettyOS.Fs

open Library Function Option Storage
open Lib

def slash : Byte := 0x2f

structure PathEnd where
  name : List Byte
  namelen : Nat
  dir : Nat

section

variable {σ : Type*} (lookup : Nat → List Byte → Nat → σ → Option (Except Int Nat × σ))

/-- The loops of `dir_namei` over the rest of a path, `len` characters behind `thisname`. -/
def dirNameiFrom (thisname : List Byte) (len : Nat) :
    List Byte → Nat → σ → Option (Except Int PathEnd × σ)
  | [], base, t => some (.ok ⟨thisname, len, base⟩, t)
  | ch :: rest, base, t =>
      if ch = slash then
        (lookup base thisname len t).bind fun
          | (.error _, t) => some (.error (-3), t)
          | (.ok inode, t) => dirNameiFrom rest 0 rest inode t
      else dirNameiFrom thisname (len + 1) rest base t

/-- `dir_namei` over any `lookup`. -/
def dirNameiWith (rootInode : Nat) (path : List Byte) (t : σ) : Option (Except Int PathEnd × σ) :=
  match path with
  | [] => dirNameiFrom lookup [] 0 [] 0 t
  | ch :: rest =>
      if ch = slash then dirNameiFrom lookup rest 0 rest rootInode t
      else dirNameiFrom lookup path 0 path 0 t

end

namespace InodeTable

section Lookup

variable (fuel : Nat) (give : InodeTable → Nat) (stack : Nat)

def lookup (base : Nat) (name : List Byte) (namelen : Nat) (t : InodeTable) :
    Option (Except Int Nat × InodeTable) :=
  if base = 0 ∨ namelen = 0 then some (.error (-1), t)
  else
    (doEntry fuel (t.inode base) name namelen .deMatch t.storage).bind fun (ret, de, s) =>
      let t := { t with storage := s }
      if ret < 0 then some (.error (-2), t)
      else
        (t.iget fuel (give t) true (t.inode base).iDev (inodeNum s.mem (de.getD stack))).map
          fun (inode, t) => (if inode = 0 then .error (-3) else .ok inode, t)

def dirNamei (path : List Byte) (t : InodeTable) : Option (Except Int PathEnd × InodeTable) :=
  dirNameiWith (lookup fuel give stack) t.rootInode path t

end Lookup

variable {t after middle : InodeTable} {sb : SuperBlock} {fuel object inode num : Nat}

structure SameDisks (t after : InodeTable) : Prop where
  superBlock : after.superBlock = t.superBlock
  disk : after.storage.disk = t.storage.disk

lemma SameDisks.refl (t : InodeTable) : SameDisks t t := ⟨rfl, rfl⟩

lemma SameDisks.trans (first : SameDisks t middle) (second : SameDisks middle after) :
    SameDisks t after :=
  ⟨second.superBlock.trans first.superBlock, second.disk.trans first.disk⟩

variable {success : Bool} {s u : Storage}

lemma readInode_frame {result : Int} (ran : t.readInode fuel success inode = some (result, after)) :
    SameDisks t after ∧ after.rootInode = t.rootInode ∧
      ∀ other ≠ inode, after.inode other = t.inode other := by
  unfold readInode at ran
  dsimp only at ran
  by_cases isNull : inode = 0
  · rw [if_pos isNull] at ran
    cases ran
    exact ⟨SameDisks.refl _, rfl, fun _ _ => rfl⟩
  rw [if_neg isNull] at ran
  cases mounted : t.superBlock (t.inode inode).iDev with
  | none =>
    rw [mounted] at ran
    cases ran
    exact ⟨SameDisks.refl _, rfl, fun _ _ => rfl⟩
  | some sb =>
    rw [mounted] at ran
    obtain ⟨⟨_, s⟩, isGot, ran⟩ := bind_eq_some_iff.mp ran
    have gotDisk := (getblk_cache isGot).2.2
    dsimp only at ran
    split_ifs at ran
    · obtain ⟨_, freed, same⟩ := map_eq_some_iff.mp ran
      cases same
      refine ⟨⟨rfl, (brelse_cache freed).2.2.trans gotDisk⟩, rfl, ?_⟩
      exact fun other ne => update_of_ne ne _ _
    · cases ran
      exact ⟨⟨rfl, gotDisk⟩, rfl, fun _ _ => rfl⟩

lemma getEmptyInode_sameDisks (object dev : Nat) (sb : SuperBlock) (t : InodeTable) :
    SameDisks t (t.getEmptyInode object dev sb).2 := by
  unfold getEmptyInode
  dsimp only
  split_ifs
  · exact ⟨rfl, rfl⟩
  · exact ⟨rfl, rfl⟩

lemma iget_sameDisks {dev : Nat}
    (ran : t.iget fuel object success dev num = some (inode, after)) : SameDisks t after := by
  unfold iget at ran
  split_ifs at ran
  obtain ⟨sb, -, isGiven⟩ := bind_eq_some_iff.mp ran
  cases isCached : t.cached dev num with
  | some found =>
    rw [isCached] at isGiven
    cases isGiven
    exact SameDisks.refl _
  | none =>
    rw [isCached] at isGiven
    have given := getEmptyInode_sameDisks object dev sb t
    dsimp only at isGiven
    split_ifs at isGiven
    · cases isGiven
      exact given
    obtain ⟨⟨_, _⟩, isRead, same⟩ := map_eq_some_iff.mp isGiven
    cases same
    have readDisks := (readInode_frame isRead).1
    exact given.trans ⟨readDisks.superBlock, readDisks.disk⟩

lemma doEntry_disk {dir : MInode} {name : List Byte} {namelen : Nat} {flag : EntryUse} {ret : Int}
    {de : Option Nat} (ran : doEntry fuel dir name namelen flag s = some (ret, de, u))
    {onDev sector : Nat}
    (away : flag = .deMatch ∨ onDev ≠ dir.iDev ∨ sector ≠ getFirstBlock dir.toDInode) :
    u.disk onDev sector = s.disk onDev sector := by
  unfold doEntry at ran
  dsimp only at ran
  split_ifs at ran
  · cases ran
    rfl
  obtain ⟨⟨_, _⟩, isGot, ran⟩ := bind_eq_some_iff.mp ran
  obtain ⟨scan, -, ran⟩ := bind_eq_some_iff.mp ran
  rw [← (getblk_cache isGot).2.2]
  cases scan with
  | beyond =>
    cases ran
    rfl
  | ended =>
    obtain ⟨released, freed, same⟩ := map_eq_some_iff.mp ran
    cases same
    rw [(brelse_cache freed).2.2]
    rfl
  | found entry =>
    cases flag with
    | deMatch =>
      obtain ⟨released, freed, same⟩ := map_eq_some_iff.mp ran
      cases same
      rw [(brelse_cache freed).2.2]
      rfl
    | deDel =>
      obtain ⟨released, freed, same⟩ := map_eq_some_iff.mp ran
      cases same
      rw [(brelse_cache freed).2.2, disk_hdWrite_other (away.resolve_left nofun)]
      rfl

def InZone (sb : SuperBlock) (d : DInode) : Prop :=
  getFirstBlock d = 0 ∨ sb.sFirstzone ≤ getFirstBlock d

structure InUse (sb : SuperBlock) (num : Nat) (s : Storage) : Prop where
  first : 1 ≤ num
  mapped : num < sb.sNimapSects * bitsZone
  marked : s.mapBit rootDev 2 num = true

structure Zoned (sb : LaidOutSuperBlock) (t : InodeTable) : Prop where
  mounted : t.superBlock rootDev = some sb.toSuperBlock
  unmounted : ∀ dev, dev ≠ rootDev → t.superBlock dev = none
  root : InZone sb (t.inode t.rootInode).toDInode
  cached : ∀ dev, ∀ inode ∈ t.sInodes dev, InZone sb (t.inode inode).toDInode
  table : ∀ num, InUse sb num t.storage →
    InZone sb (loadInode (t.storage.disk rootDev (inodeBlock sb num)) (inodeSlot num))

lemma InZone.congr {a b : DInode} (zone : InZone sb a) (same : SameFields b a) : InZone sb b := by
  unfold InZone getFirstBlock at zone ⊢
  rw [same.iData 0 (by decide)]
  exact zone

lemma InUse.congr (used : InUse sb num s) (same : u.disk = s.disk) : InUse sb num u := by
  refine ⟨used.first, used.mapped, ?_⟩
  unfold mapBit
  rw [SameSectors.of_disk same]
  exact used.marked

section Zoned

variable {sb : LaidOutSuperBlock}

lemma Zoned.of_changes (zoned : Zoned sb t) (same : SameDisks t after)
    (root : after.rootInode = t.rootInode)
    (inodes : ∀ inode, after.inode inode = t.inode inode ∨ InZone sb (after.inode inode).toDInode)
    (lists : ∀ dev, ∀ inode ∈ after.sInodes dev, inode ∈ t.sInodes dev ∨
      InZone sb (after.inode inode).toDInode) : Zoned sb after where
  mounted := by rw [same.superBlock]; exact zoned.mounted
  unmounted := by rw [same.superBlock]; exact zoned.unmounted
  root := by
    rw [root]
    rcases inodes t.rootInode with unchanged | zone
    · rw [unchanged]
      exact zoned.root
    · exact zone
  cached := by
    intro dev inode mem
    rcases lists dev inode mem with listed | zone
    · rcases inodes inode with unchanged | zone
      · rw [unchanged]
        exact zoned.cached dev inode listed
      · exact zone
    · exact zone
  table := by
    intro num used
    rw [same.disk]
    exact zoned.table num (used.congr same.disk.symm)

lemma Zoned.withStorage (zoned : Zoned sb t) {s : Storage} (same : s.disk = t.storage.disk) :
    Zoned sb { t with storage := s } :=
  zoned.of_changes ⟨rfl, same⟩ rfl (fun _ => Or.inl rfl) fun _ _ => Or.inl

variable {listed : InodeTable}

lemma getEmptyInode_null (given : t.getEmptyInode object rootDev sb = (0, listed)) :
    listed = { t with nrInodesCount := (t.nrInodesCount + 1) % 2 ^ 16 } := by
  unfold getEmptyInode at given
  split_ifs at given with refused
  · cases given
    rfl
  · exact absurd (congrArg Prod.fst given) (not_or.mp refused).2

lemma getEmptyInode_new
    (given : t.getEmptyInode object rootDev sb = (inode, listed)) (isInode : inode ≠ 0) :
    inode = object ∧ listed.rootInode = t.rootInode ∧ (listed.inode object).iDev = rootDev ∧
      (∀ other ≠ object, listed.inode other = t.inode other) ∧
      ∀ dev, ∀ other ∈ listed.sInodes dev, other ∈ t.sInodes dev ∨ other = object := by
  unfold getEmptyInode at given
  split_ifs at given with refused
  · cases given
    exact absurd rfl isInode
  cases given
  refine ⟨rfl, rfl, ?_, fun other ne => ?_, fun dev other mem => ?_⟩
  · simp only [update_self]
    rfl
  · exact update_of_ne ne _ _
  by_cases onRoot : dev = rootDev
  · subst onRoot
    simp only [update_self] at mem
    exact (List.mem_append.mp mem).imp_right List.mem_singleton.mp
  · simp only [update_of_ne onRoot] at mem
    exact .inl mem

lemma Zoned.iget (zoned : Zoned sb t) {dev : Nat} (short : num < 2 ^ 16)
    (used : InUse sb num t.storage) (ran : t.iget fuel object true dev num = some (inode, after)) :
    Zoned sb after ∧ (inode ≠ 0 → InZone sb (after.inode inode).toDInode) := by
  have allDisks := iget_sameDisks ran
  unfold InodeTable.iget at ran
  split_ifs at ran
  obtain ⟨mountedBlock, isMounted, isGiven⟩ := bind_eq_some_iff.mp ran
  obtain rfl : dev = rootDev := by
    by_contra other
    rw [zoned.unmounted dev other] at isMounted
    cases isMounted
  obtain rfl : sb.toSuperBlock = mountedBlock :=
    Option.some.inj (zoned.mounted.symm.trans isMounted)
  cases isCached : t.cached rootDev num with
  | some found =>
    rw [isCached] at isGiven
    cases isGiven
    have listed := List.mem_of_find?_eq_some isCached
    exact ⟨zoned, fun _ => zoned.cached rootDev inode listed⟩
  | none =>
    rw [isCached] at isGiven
    have sameDisks := getEmptyInode_sameDisks object rootDev sb t
    rcases given : t.getEmptyInode object rootDev sb with ⟨candidate, listed⟩
    rw [given] at isGiven sameDisks
    dsimp only at isGiven
    by_cases isNull : candidate = 0
    · subst isNull
      rw [if_pos rfl] at isGiven
      cases isGiven
      rw [getEmptyInode_null given]
      refine ⟨?_, fun isInode => absurd rfl isInode⟩
      exact zoned.of_changes ⟨rfl, rfl⟩ rfl (fun _ => .inl rfl) fun _ _ => .inl
    rw [if_neg isNull] at isGiven
    obtain ⟨rfl, root, isDev, others, lists⟩ := getEmptyInode_new given isNull
    obtain ⟨⟨_, read⟩, isRead, same⟩ := map_eq_some_iff.mp isGiven
    cases same
    -- the object as `read_inode` finds it
    have prep : ((listed.setNum candidate num).inode candidate).iDev = rootDev ∧
        ((listed.setNum candidate num).inode candidate).iNum = num := by
      simp only [setNum, update_self, Nat.mod_eq_of_lt short, and_true]
      exact isDev
    have found : (listed.setNum candidate num).superBlock
        ((listed.setNum candidate num).inode candidate).iDev = some sb.toSuperBlock := by
      rw [prep.1]
      exact (congrFun sameDisks.superBlock rootDev).trans zoned.mounted
    obtain ⟨isZero, fields⟩ := readInode_fields found isNull (prep.2.symm ▸ used.first) isRead
    obtain ⟨-, readRoot, readOthers⟩ := readInode_frame isRead
    have zone : InZone sb (read.inode candidate).toDInode := by
      rw [prep.2] at fields
      refine InZone.congr ?_ fields
      show InZone sb (loadInode (listed.storage.disk rootDev _) _)
      rw [sameDisks.disk]
      exact zoned.table num used
    have changes : ∀ other, read.inode other = t.inode other ∨
        InZone sb (read.inode other).toDInode := by
      intro other
      by_cases isNew : other = candidate
      · exact .inr (isNew ▸ zone)
      · refine .inl ((readOthers other isNew).trans ?_)
        exact (update_of_ne isNew _ _).trans (others other isNew)
    refine ⟨zoned.of_changes allDisks (readRoot.trans root) changes ?_, ?_⟩
    · intro dev other mem
      rw [(sameCounts_readInode isRead).lists] at mem
      rcases lists dev other mem with listed | isNew
      · exact .inl listed
      · exact .inr (isNew ▸ zone)
    · intro _
      rw [isZero]
      exact zone

end Zoned

def FindsUsed (fuel : Nat) (sb : SuperBlock) (base : Nat) (name : List Byte) (namelen : Nat)
    (t : InodeTable) : Prop :=
  ∀ ret de s, doEntry fuel (t.inode base) name namelen .deMatch t.storage = some (ret, de, s) →
    0 ≤ ret → ∃ entry, de = some entry ∧ InUse sb (inodeNum s.mem entry) s

section Paths

variable (fuel : Nat) (give : InodeTable → Nat) (stack : Nat) (sb : SuperBlock)

def LeadsFrom (thisname : List Byte) (len : Nat) : List Byte → Nat → InodeTable → Prop
  | [], _, _ => True
  | ch :: rest, base, t =>
      if ch = slash then
        (base ≠ 0 → len ≠ 0 → FindsUsed fuel sb base thisname len t) ∧
          ∀ inode after, lookup fuel give stack base thisname len t = some (.ok inode, after) →
            LeadsFrom rest 0 rest inode after
      else LeadsFrom thisname (len + 1) rest base t

def Leads (path : List Byte) (t : InodeTable) : Prop :=
  match path with
  | [] => True
  | ch :: rest =>
      if ch = slash then LeadsFrom fuel give stack sb rest 0 rest t.rootInode t
      else LeadsFrom fuel give stack sb path 0 path 0 t

end Paths

section Directories

variable {give : InodeTable → Nat} {stack base len : Nat} {sb : LaidOutSuperBlock}
  {name : List Byte}

lemma inodeNum_lt (mem : Nat → Byte) (de : Nat) : inodeNum mem de < 2 ^ 16 := by
  have low := (mem de).isLt
  have high := (mem (de + 1)).isLt
  show (mem de).toNat + 2 ^ 8 * (mem (de + 1)).toNat < 2 ^ 16
  omega

lemma Zoned.lookup (zoned : Zoned sb t)
    (finds : base ≠ 0 → len ≠ 0 → FindsUsed fuel sb base name len t) {result : Except Int Nat}
    (ran : t.lookup fuel give stack base name len = some (result, after)) :
    SameDisks t after ∧ Zoned sb after ∧
      ∀ inode, result = .ok inode → InZone sb (after.inode inode).toDInode := by
  unfold InodeTable.lookup at ran
  by_cases idle : base = 0 ∨ len = 0
  · rw [if_pos idle] at ran
    cases ran
    exact ⟨SameDisks.refl _, zoned, nofun⟩
  rw [if_neg idle] at ran
  obtain ⟨⟨ret, de, s⟩, isEntry, ran⟩ := bind_eq_some_iff.mp ran
  have sameDisk : s.disk = t.storage.disk :=
    funext fun onDev => funext fun sector => doEntry_disk isEntry (.inl rfl)
  have entryDisks : SameDisks t { t with storage := s } := ⟨rfl, sameDisk⟩
  have zonedNow := zoned.withStorage sameDisk
  dsimp only at ran
  split_ifs at ran with failed
  · cases ran
    exact ⟨entryDisks, zonedNow, nofun⟩
  obtain ⟨entry, rfl, used⟩ := finds (not_or.mp idle).1 (not_or.mp idle).2 ret de s isEntry
    (Int.not_lt.mp failed)
  obtain ⟨⟨inode, _⟩, isGot, same⟩ := map_eq_some_iff.mp ran
  cases same
  obtain ⟨gotZoned, zone⟩ := zonedNow.iget (inodeNum_lt s.mem entry) used isGot
  refine ⟨entryDisks.trans (iget_sameDisks isGot), gotZoned, fun found isFound => ?_⟩
  split_ifs at isFound with isNull
  cases isFound
  exact zone isNull

variable {result : Except Int PathEnd} {path : List Byte}

lemma Zoned.dirNameiFrom (zoned : Zoned sb t)
    (leads : LeadsFrom fuel give stack sb name len path base t)
    (start : base ≠ 0 → InZone sb (t.inode base).toDInode)
    (ran : Fs.dirNameiFrom (InodeTable.lookup fuel give stack) name len path base t =
      some (result, after)) :
    SameDisks t after ∧ ∀ place, result = .ok place → place.dir ≠ 0 →
      InZone sb (after.inode place.dir).toDInode := by
  induction path generalizing name len base t with
  | nil =>
    cases ran
    refine ⟨SameDisks.refl _, fun place isPlace => ?_⟩
    cases isPlace
    exact start
  | cons ch rest ih =>
    unfold Fs.dirNameiFrom at ran
    unfold LeadsFrom at leads
    split_ifs at ran leads with isSlash
    · obtain ⟨⟨found, looked⟩, isLookup, ran⟩ := bind_eq_some_iff.mp ran
      obtain ⟨lookupDisks, lookedZoned, zone⟩ := zoned.lookup leads.1 isLookup
      cases found with
      | error code =>
        cases ran
        exact ⟨lookupDisks, nofun⟩
      | ok inode =>
        obtain ⟨restDisks, ends⟩ := ih lookedZoned
          (leads.2 inode looked isLookup) (fun _ => zone inode rfl) ran
        exact ⟨lookupDisks.trans restDisks, ends⟩
    · exact ih zoned leads start ran

lemma Zoned.dirNamei (zoned : Zoned sb t) (leads : t.Leads fuel give stack sb path)
    (ran : t.dirNamei fuel give stack path = some (result, after)) :
    SameDisks t after ∧ ∀ place, result = .ok place → place.dir ≠ 0 →
      InZone sb (after.inode place.dir).toDInode := by
  cases path with
  | nil =>
    cases ran
    refine ⟨SameDisks.refl _, fun place isPlace isDir => ?_⟩
    cases isPlace
    exact absurd rfl isDir
  | cons ch rest =>
    unfold InodeTable.dirNamei dirNameiWith at ran
    unfold Leads at leads
    dsimp only at ran leads
    split_ifs at ran leads with isSlash
    · exact zoned.dirNameiFrom leads (fun _ => zoned.root) ran
    · exact zoned.dirNameiFrom leads (fun isDir => absurd rfl isDir) ran

end Directories

end InodeTable

end PrettyOS.Fs
