import PrettyOS.Fs.Inode
import PrettyOS.Library.Runs

/-!
Contract: the reference counts of cached inodes over runs of `iget` and `iput`.
-/

namespace PrettyOS.Fs

open Library Lib List Option InodeTable
open Function

namespace InodeTable

variable {t after : InodeTable} {fuel object dev num inode : Nat} {success : Bool}

lemma readInode_result {sb : SuperBlock} {res : Int} (isInode : inode ≠ 0)
    (mnt : t.superBlock (t.inode inode).iDev = some sb)
    (ran : t.readInode fuel success inode = some (res, after)) :
    res = if success then 0 else -4 := by
  unfold readInode at ran
  dsimp only at ran
  rw [if_neg isInode, mnt] at ran
  obtain ⟨⟨_, s⟩, -, ran⟩ := bind_eq_some_iff.mp ran
  cases success with
  | true =>
    obtain ⟨s, -, same⟩ := map_eq_some_iff.mp ran
    cases same
    rfl
  | false =>
    cases ran
    rfl

structure Enlisted (object dev : Nat) (t after : InodeTable) : Prop where
  lists : after.sInodes = update t.sInodes dev (listAddHead object (t.sInodes dev))
  root : after.rootInode = t.rootInode
  ownDev : (after.inode object).iDev = dev
  ownCount : (after.inode object).iCount = 1
  dev : ∀ inode ≠ object, (after.inode inode).iDev = (t.inode inode).iDev
  count : ∀ inode ≠ object, (after.inode inode).iCount = (t.inode inode).iCount

def Refuses (object dev : Nat) (t : InodeTable) : Prop :=
  (∀ sb, t.superBlock dev = some sb → sb.sNinodes ≤ t.nrInodesCount) ∨ object = 0

lemma Enlisted.trans {middle : InodeTable} (enlisted : Enlisted object dev t middle)
    (same : SameCounts middle after) : Enlisted object dev t after where
  lists := same.lists.trans enlisted.lists
  root := same.root.trans enlisted.root
  ownDev := (same.dev object).trans enlisted.ownDev
  ownCount := (same.count object).trans enlisted.ownCount
  dev := fun inode ne => (same.dev inode).trans (enlisted.dev inode ne)
  count := fun inode ne => (same.count inode).trans (enlisted.count inode ne)

lemma getEmptyInode_cases {sb : SuperBlock} (short : dev < 2 ^ 16)
    (mnt : t.superBlock dev = some sb) (ran : t.getEmptyInode object dev sb = (inode, after)) :
    Refuses object dev t ∧ inode = 0 ∧ SameCounts t after ∨
      ¬Refuses object dev t ∧ inode = object ∧ object ≠ 0 ∧ Enlisted object dev t after ∧
        after.superBlock = t.superBlock := by
  have refuses : Refuses object dev t ↔ sb.sNinodes ≤ t.nrInodesCount ∨ object = 0 := by
    unfold Refuses
    rw [mnt]
    simp
  rw [refuses]
  unfold getEmptyInode at ran
  split_ifs at ran with refused
  · cases ran
    exact .inl ⟨refused, rfl, rfl, rfl, fun _ => rfl, fun _ => rfl⟩
  cases ran
  refine .inr ⟨refused, rfl, (not_or.mp refused).2, ⟨rfl, rfl, ?_, ?_, ?_, ?_⟩, rfl⟩
  · simp only [update_self]
    exact Nat.mod_eq_of_lt short
  · simp only [update_self]
  · intro inode ne
    simp only [update_of_ne ne]
  · intro inode ne
    simp only [update_of_ne ne]

lemma sameCounts_setNum : SameCounts t (t.setNum inode num) := by
  unfold setNum
  exact @sameCounts_update _ _ _ t.storage rfl rfl

lemma iget_cases {sb : SuperBlock} (onDevice : dev ≠ 0) (short : dev < 2 ^ 16)
    (mnt : t.superBlock dev = some sb)
    (ran : t.iget fuel object success dev num = some (inode, after)) :
    t.cached dev num = some inode ∧ after = t ∨
      t.cached dev num = none ∧ Refuses object dev t ∧ inode = 0 ∧ SameCounts t after ∨
      t.cached dev num = none ∧ ¬Refuses object dev t ∧ inode = (if success then object else 0) ∧
        Enlisted object dev t after := by
  unfold iget at ran
  rw [if_neg onDevice, mnt, bind_some] at ran
  cases isCached : t.cached dev num with
  | some found =>
    rw [isCached] at ran
    cases ran
    exact .inl ⟨rfl, rfl⟩
  | none =>
    rw [isCached] at ran
    rcases given : t.getEmptyInode object dev sb with ⟨candidate, listed⟩
    rw [given] at ran
    dsimp only at ran
    rcases getEmptyInode_cases short mnt given with
      ⟨refused, rfl, same⟩ | ⟨acc, rfl, ne0, enlisted, blocks⟩
    · rw [if_pos rfl] at ran
      cases ran
      exact .inr (.inl ⟨rfl, refused, rfl, same⟩)
    rw [if_neg ne0] at ran
    obtain ⟨⟨_, _⟩, isRead, same⟩ := map_eq_some_iff.mp ran
    cases same
    have isMounted : (listed.setNum candidate num).superBlock
        ((listed.setNum candidate num).inode candidate).iDev = some sb := by
      rw [sameCounts_setNum.dev, enlisted.ownDev]
      exact (congrFun blocks dev).trans mnt
    refine .inr (.inr ⟨rfl, acc, ?_, ?_⟩)
    · rw [readInode_result ne0 isMounted isRead]
      cases success <;> rfl
    · exact enlisted.trans (sameCounts_setNum.trans (sameCounts_readInode isRead))

lemma isSpecial_eq_false (mode : Nat) : isSpecial mode = false := by
  have bit : (mode &&& 0x1D00).testBit 9 = false := by
    rw [Nat.testBit_and]
    exact Bool.and_eq_false_imp.mpr fun _ => by decide
  have differs : ∀ type : Nat, type.testBit 9 = true → mode &&& 0x1D00 ≠ type := by
    intro type hasBit same
    rw [same, hasBit] at bit
    cases bit
  unfold isSpecial
  rw [decide_eq_false (differs 0x0600 (by decide)), decide_eq_false (differs 0x0200 (by decide))]
  rfl

lemma SameCounts.unlist (same : SameCounts t after) (inode : Nat) :
    SameCounts (t.unlist inode) (after.unlist inode) := by
  refine ⟨?_, same.root, same.dev, same.count⟩
  show (fun dev => listDel inode (after.sInodes dev)) = _
  rw [same.lists]
  rfl

lemma iput_cases {readSuccess writeSuccess : Bool} {res : Int} (ne0 : inode ≠ 0)
    (notRoot : inode ≠ t.rootInode) (cnt : 0 < (t.inode inode).iCount)
    (onDevice : (t.inode inode).iDev ≠ 0)
    (ran : t.iput fuel readSuccess writeSuccess inode = some (res, after)) :
    1 < (t.inode inode).iCount ∧ after = t.setCount inode ((t.inode inode).iCount - 1) ∨
      (t.inode inode).iCount = 1 ∧ SameCounts ((t.setCount inode 0).unlist inode) after := by
  unfold iput at ran
  dsimp only at ran
  rw [if_neg ne0, if_neg (by omega), if_neg notRoot, if_neg onDevice, isSpecial_eq_false,
    if_neg (by decide)] at ran
  by_cases last : (t.inode inode).iCount = 1
  · rw [if_neg (by omega), last] at ran
    obtain ⟨_, freed, same⟩ := map_eq_some_iff.mp ran
    cases same
    refine .inr ⟨last, ?_⟩
    unfold release at freed
    split_ifs at freed
    · obtain ⟨⟨res, _⟩, isWritten, freed⟩ := bind_eq_some_iff.mp freed
      rw [freeInode_same freed]
      exact (sameCounts_writeInode isWritten).unlist inode
    · rw [freeInode_same freed]
      exact SameCounts.refl _
  · rw [if_pos (by omega)] at ran
    cases ran
    exact .inl ⟨by omega, rfl⟩

end InodeTable

/-- The cached inodes, with the references that their users hold. -/
structure Ledger where
  table : InodeTable
  refs : Nat → Nat

inductive InodeCall where
  | iget (object : Nat) (success : Bool) (dev num : Nat)
  | iput (readSuccess writeSuccess : Bool) (inode : Nat)

def InodeCall.run (fuel : Nat) : InodeCall → Ledger → Option (Int × Ledger)
  | .iget object success dev num, book =>
      (book.table.iget fuel object success dev num).map fun (inode, t) =>
        (inode, ⟨t, if inode = 0 then book.refs else update book.refs inode (book.refs inode + 1)⟩)
  | .iput readSuccess writeSuccess inode, book =>
      (book.table.iput fuel readSuccess writeSuccess inode).map fun (result, t) =>
        (result, ⟨t, update book.refs inode (book.refs inode - 1)⟩)

/-- What callers see to: the device is there, memory that is given out is not in use, and only
references that are held are put. -/
def InodeCall.Admitted : InodeCall → Ledger → Prop
  | .iget object _ dev num, book =>
      dev ≠ 0 ∧ dev < 2 ^ 16 ∧ (book.table.superBlock dev).isSome ∧
        book.table.cached dev num ≠ some book.table.rootInode ∧
        (object ≠ 0 → object ≠ book.table.rootInode ∧ book.refs object = 0 ∧
          ∀ onDev, object ∉ book.table.sInodes onDev)
  | .iput _ _ inode, book => 0 < book.refs inode ∧ inode ≠ book.table.rootInode

structure Ledger.Listed (book : Ledger) : Prop where
  nodup : ∀ dev, (book.table.sInodes dev).Nodup
  home : ∀ dev, ∀ inode ∈ book.table.sInodes dev,
    (book.table.inode inode).iDev = dev ∧ dev ≠ 0 ∧ inode ≠ 0

structure Ledger.Counted (book : Ledger) : Prop where
  count : ∀ dev, ∀ inode ∈ book.table.sInodes dev, inode ≠ book.table.rootInode →
    (book.table.inode inode).iCount = book.refs inode
  cached : ∀ inode, 0 < book.refs inode → inode ∈ book.table.sInodes (book.table.inode inode).iDev

def InodeCall.CountsReference : InodeCall → Ledger → Prop
  | .iget object success dev num, book =>
      book.table.cached dev num = none ∧ (InodeTable.Refuses object dev book.table ∨ success = true)
  | .iput _ _ _, _ => True

namespace Ledger

variable {book after : Ledger} {result : Int} {fuel object dev num inode : Nat} {success : Bool}
  {call : InodeCall}

lemma counted_of_sameCounts {t : InodeTable} (same : InodeTable.SameCounts book.table t)
    (cnt : book.Counted) : Counted ⟨t, book.refs⟩ := by
  constructor
  · intro dev inode mem notRoot
    rw [same.lists] at mem
    rw [same.root] at notRoot
    exact (same.count inode).trans (cnt.count dev inode mem notRoot)
  · intro inode held
    rw [same.lists, same.dev]
    exact cnt.cached inode held

lemma listed_of_sameCounts {t : InodeTable} {refs : Nat → Nat}
    (same : InodeTable.SameCounts book.table t) (listed : book.Listed) : Listed ⟨t, refs⟩ := by
  constructor
  · intro dev
    rw [same.lists]
    exact listed.nodup dev
  intro dev inode mem
  rw [same.lists] at mem
  rw [same.dev]
  exact listed.home dev inode mem

lemma mem_enlisted {t after : InodeTable} (enlisted : InodeTable.Enlisted object dev t after)
    (onDev : Nat) :
    inode ∈ after.sInodes onDev ↔ inode ∈ t.sInodes onDev ∨ onDev = dev ∧ inode = object := by
  rw [enlisted.lists]
  rcases eq_or_ne onDev dev with rfl | ne
  · simp [listAddHead]
  · simp [ne]

lemma listed_enlisted {t : InodeTable} {refs : Nat → Nat} (onDevice : dev ≠ 0)
    (ne0 : object ≠ 0) (fresh : ∀ onDev, object ∉ book.table.sInodes onDev)
    (enlisted : InodeTable.Enlisted object dev book.table t) (listed : book.Listed) :
    Listed ⟨t, refs⟩ := by
  constructor
  · intro onDev
    show (t.sInodes onDev).Nodup
    rw [enlisted.lists]
    rcases eq_or_ne onDev dev with rfl | ne
    · rw [update_self]
      exact List.Nodup.append (listed.nodup onDev) (nodup_singleton object)
        (disjoint_singleton.mpr (fresh onDev))
    · rw [update_of_ne ne]
      exact listed.nodup onDev
  · intro onDev inode mem
    rcases (mem_enlisted enlisted onDev).mp mem with old | ⟨rfl, rfl⟩
    · have ne := ne_of_mem_of_not_mem old (fresh onDev)
      exact ⟨(enlisted.dev inode ne).trans (listed.home onDev inode old).1,
        (listed.home onDev inode old).2⟩
    · exact ⟨enlisted.ownDev, onDevice, ne0⟩

lemma counted_enlisted {t : InodeTable} (fresh : ∀ onDev, object ∉ book.table.sInodes onDev)
    (unused : book.refs object = 0) (enlisted : InodeTable.Enlisted object dev book.table t)
    (cnt : book.Counted) : Counted ⟨t, update book.refs object (book.refs object + 1)⟩ := by
  constructor
  · intro onDev inode mem notRoot
    show (t.inode inode).iCount = (update book.refs object _ inode : Nat)
    rcases (mem_enlisted enlisted onDev).mp mem with old | ⟨rfl, rfl⟩
    · have ne := ne_of_mem_of_not_mem old (fresh onDev)
      rw [update_of_ne ne, enlisted.count inode ne]
      exact cnt.count onDev inode old (enlisted.root ▸ notRoot)
    · rw [update_self, enlisted.ownCount, unused]
      rfl
  · intro inode held
    refine (mem_enlisted enlisted _).mpr ?_
    rcases eq_or_ne inode object with rfl | ne
    · exact .inr ⟨enlisted.ownDev, rfl⟩
    left
    rw [enlisted.dev inode ne]
    dsimp only at held
    rw [update_of_ne ne] at held
    exact cnt.cached inode held

lemma not_counted_enlisted {t : InodeTable} (notRoot : object ≠ book.table.rootInode)
    (unused : book.refs object = 0) (enlisted : InodeTable.Enlisted object dev book.table t) :
    ¬Counted ⟨t, book.refs⟩ := by
  intro cnt
  have once := cnt.count dev object ((mem_enlisted enlisted dev).mpr (.inr ⟨rfl, rfl⟩))
    (enlisted.root.symm ▸ notRoot)
  rw [enlisted.ownCount, unused] at once
  cases once

lemma not_counted_again (mem : inode ∈ book.table.sInodes dev)
    (notRoot : inode ≠ book.table.rootInode) (cnt : book.Counted) :
    ¬Counted ⟨book.table, update book.refs inode (book.refs inode + 1)⟩ := by
  intro again
  have before := cnt.count dev inode mem notRoot
  have now := again.count dev inode mem notRoot
  dsimp only at now
  rw [update_self] at now
  have same := before.symm.trans now
  omega

lemma iget_step (listed : book.Listed) (cnt : book.Counted)
    (adm : (InodeCall.iget object success dev num).Admitted book)
    (ran : (InodeCall.iget object success dev num).run fuel book = some (result, after)) :
    after.Listed ∧
      (after.Counted ↔ (InodeCall.iget object success dev num).CountsReference book) := by
  obtain ⟨onDevice, short, isMounted, notRoot, fresh⟩ := adm
  obtain ⟨_, mnt⟩ := isSome_iff_exists.mp isMounted
  obtain ⟨⟨inode, t⟩, isGot, same⟩ := map_eq_some_iff.mp ran
  cases same
  rcases iget_cases onDevice short mnt isGot with
    ⟨isCached, rfl⟩ | ⟨notCached, refused, rfl, same⟩ | ⟨notCached, acc, isInode, enlisted⟩
  · have mem := mem_of_find?_eq_some isCached
    have ne0 := (listed.home dev inode mem).2.2
    have other : inode ≠ book.table.rootInode := fun same => notRoot (same ▸ isCached)
    rw [if_neg ne0]
    refine ⟨⟨listed.nodup, listed.home⟩, iff_of_false ?_ ?_⟩
    · exact not_counted_again mem other cnt
    · intro counts
      exact absurd (isCached.symm.trans counts.1) (by simp)
  · rw [if_pos rfl]
    exact ⟨listed_of_sameCounts same listed,
      iff_of_true (counted_of_sameCounts same cnt) ⟨notCached, .inl refused⟩⟩
  have ne0 : object ≠ 0 := fun isNull => acc (.inr isNull)
  obtain ⟨notRootObject, unused, off⟩ := fresh ne0
  refine ⟨listed_enlisted onDevice ne0 off enlisted listed, ?_⟩
  cases success with
  | true =>
    rw [if_pos rfl] at isInode
    rw [isInode, if_neg ne0]
    exact iff_of_true (counted_enlisted off unused enlisted cnt)
      ⟨notCached, .inr rfl⟩
  | false =>
    rw [if_neg (by decide)] at isInode
    rw [if_pos isInode]
    refine iff_of_false (not_counted_enlisted notRootObject unused enlisted) ?_
    intro counts
    exact counts.2.elim acc (by decide)

lemma listed_setCount {count : Int} {refs : Nat → Nat} (listed : book.Listed) :
    Listed ⟨book.table.setCount inode count, refs⟩ := by
  refine ⟨listed.nodup, ?_⟩
  intro dev other mem
  have home := listed.home dev other mem
  exact ⟨(dev_setCount count other).trans home.1, home.2⟩

lemma listed_unlist {refs : Nat → Nat} (listed : book.Listed) :
    Listed ⟨book.table.unlist inode, refs⟩ :=
  ⟨fun dev => (listed.nodup dev).erase inode,
    fun dev other mem => listed.home dev other (mem_of_mem_erase mem)⟩

lemma counted_setCount (cnt : book.Counted) (held : 0 < book.refs inode)
    (count : (book.table.inode inode).iCount = book.refs inode) :
    Counted ⟨book.table.setCount inode ((book.table.inode inode).iCount - 1),
      update book.refs inode (book.refs inode - 1)⟩ := by
  constructor
  · intro dev other mem notRoot
    dsimp only
    rcases eq_or_ne other inode with rfl | ne
    · rw [count_setCount_self, update_self]
      omega
    · rw [count_setCount_other _ ne, update_of_ne ne]
      exact cnt.count dev other mem notRoot
  · intro other heldAfter
    dsimp only at heldAfter ⊢
    rw [dev_setCount]
    refine cnt.cached other ?_
    rcases eq_or_ne other inode with rfl | ne
    · exact held
    · rwa [update_of_ne ne] at heldAfter

lemma counted_unlist (cnt : book.Counted) (unused : book.refs inode = 0) :
    Counted ⟨book.table.unlist inode, book.refs⟩ := by
  constructor
  · intro dev other mem notRoot
    exact cnt.count dev other (mem_of_mem_erase mem) notRoot
  intro other held
  have ne : other ≠ inode := by
    rintro rfl
    exact absurd unused held.ne'
  exact (mem_erase_of_ne ne).mpr (cnt.cached other held)

lemma iput_step {readSuccess writeSuccess : Bool} (listed : book.Listed) (cnt : book.Counted)
    (adm : (InodeCall.iput readSuccess writeSuccess inode).Admitted book)
    (ran : (InodeCall.iput readSuccess writeSuccess inode).run fuel book = some (result, after)) :
    after.Listed ∧ after.Counted := by
  obtain ⟨held, notRoot⟩ := adm
  obtain ⟨⟨_, t⟩, isPut, same⟩ := map_eq_some_iff.mp ran
  cases same
  have mem := cnt.cached inode held
  obtain ⟨-, onDevice, ne0⟩ := listed.home _ inode mem
  have count := cnt.count _ inode mem notRoot
  have fewer := counted_setCount cnt held count
  rcases iput_cases ne0 notRoot (by omega) onDevice isPut with
    ⟨-, rfl⟩ | ⟨last, same⟩
  · exact ⟨listed_setCount listed, fewer⟩
  rw [last, sub_self] at fewer
  have unused : update book.refs inode (book.refs inode - 1) inode = 0 := by
    rw [update_self]
    omega
  have gone := counted_unlist fewer unused
  have countedDown : Listed ⟨book.table.setCount inode 0, book.refs⟩ := listed_setCount listed
  have stillListed : Listed ⟨(book.table.setCount inode 0).unlist inode, book.refs⟩ :=
    listed_unlist countedDown
  exact ⟨listed_of_sameCounts same stillListed, counted_of_sameCounts same gone⟩

lemma step (listed : book.Listed) (cnt : book.Counted) (adm : call.Admitted book)
    (ran : call.run fuel book = some (result, after)) :
    after.Listed ∧ (after.Counted ↔ call.CountsReference book) := by
  cases call with
  | iget object success dev num => exact iget_step listed cnt adm ran
  | iput readSuccess writeSuccess inode =>
    have kept := iput_step listed cnt adm ran
    exact ⟨kept.1, iff_of_true kept.2 trivial⟩

end Ledger

/-- In a run from a state whose references are counted, they are counted after every call
exactly when every `iget` of the run finds no cached inode and reads the new one it gets. -/
theorem references_counted_iff {fuel : Nat} {calls : List InodeCall} {book last : Ledger}
    {results : List Int} (listed : book.Listed) (counted : book.Counted)
    (admitted : AtEach (InodeCall.run fuel) InodeCall.Admitted calls book)
    (returned : runSteps (InodeCall.run fuel) calls book = some (results, last)) :
    AfterEach (InodeCall.run fuel) (fun _ _ _ after => after.Counted) calls book ↔
      AtEach (InodeCall.run fuel) InodeCall.CountsReference calls book := by
  refine @afterEach_iff_atEach_of_admitted _ _ _ (InodeCall.run fuel) InodeCall.CountsReference
    (fun _ _ _ after => after.Counted) (fun book => book.Listed ∧ book.Counted) calls book last
    results InodeCall.Admitted ?_ ?_ ⟨listed, counted⟩ admitted returned
  · intro call book result after sound adm ran
    exact (Ledger.step sound.1 sound.2 adm ran).2
  · intro call book result after sound adm ran counts
    obtain ⟨stillListed, isCounted⟩ := Ledger.step sound.1 sound.2 adm ran
    exact ⟨stillListed, isCounted.mpr counts⟩

def mountedBook : Ledger where
  table :=
    { storage := Storage.blank
      superBlock := fun dev => if dev = rootDev then some formattedSuperBlock else none
      sInodes := fun _ => []
      inode := fun _ => clearedInode
      rootInode := 0
      nrInodesCount := 0 }
  refs := fun _ => 0

def openedBook : Int × Ledger :=
  (InodeCall.run 8 (.iget 0x300000 true rootDev 5) mountedBook).get (by decide +kernel)

lemma run_openedBook :
    InodeCall.run 8 (.iget 0x300000 true rootDev 5) mountedBook = some openedBook :=
  (some_get _).symm

lemma admitted_mountedBook : (InodeCall.iget 0x300000 true rootDev 5).Admitted mountedBook :=
  ⟨by decide, by decide, by decide, by decide, fun _ => ⟨by decide, rfl, fun _ => not_mem_nil⟩⟩

def openClose : List InodeCall := [.iget 0x300000 true rootDev 5, .iput true true 0x300000]

/-- Both calls of an `iget` and an `iput` return, and the reference is counted after each. -/
theorem references_counted_openClose :
    (∃ results last, runSteps (InodeCall.run 8) openClose mountedBook = some (results, last)) ∧
      AfterEach (InodeCall.run 8) (fun _ _ _ after => after.Counted) openClose mountedBook := by
  have listed : mountedBook.Listed := ⟨fun _ => nodup_nil, nofun⟩
  have counted : mountedBook.Counted := ⟨nofun, nofun⟩
  have returned : (runSteps (InodeCall.run 8) openClose mountedBook).isSome := by decide +kernel
  obtain ⟨⟨results, last⟩, returned⟩ := isSome_iff_exists.mp returned
  refine ⟨⟨results, last, returned⟩, (references_counted_iff listed counted ?_ returned).mpr ?_⟩
  · refine ⟨admitted_mountedBook, ?_⟩
    intro result after ran
    cases run_openedBook.symm.trans ran
    exact ⟨⟨by decide +kernel, by decide +kernel⟩, fun _ _ _ => trivial⟩
  · exact ⟨⟨by decide, .inr rfl⟩, fun _ _ _ => ⟨trivial, fun _ _ _ => trivial⟩⟩

def twoOpens : List InodeCall :=
  [.iget 0x300000 true rootDev 5, .iget 0 true rootDev 5, .iput true true 0x300000]

def reopenedBook : Int × Ledger :=
  (InodeCall.run 8 (.iget 0 true rootDev 5) openedBook.2).get (by decide +kernel)

lemma admitted_twoOpens :
    AtEach (InodeCall.run 8) InodeCall.Admitted twoOpens mountedBook := by
  refine ⟨admitted_mountedBook, ?_⟩
  intro result after ran
  cases run_openedBook.symm.trans ran
  refine ⟨⟨by decide, by decide, by decide +kernel, by decide +kernel, nofun⟩, ?_⟩
  intro result after ran
  have isReopened : InodeCall.run 8 (.iget 0 true rootDev 5) openedBook.2 = some reopenedBook :=
    (some_get _).symm
  cases isReopened.symm.trans ran
  exact ⟨⟨by decide +kernel, by decide +kernel⟩, fun _ _ _ => trivial⟩

def droppedBook : List Int × Ledger :=
  (runSteps (InodeCall.run 8) twoOpens mountedBook).get (by decide +kernel)

/-- After two `iget` and one `iput` there is a reference to the inode, and it is on no list. -/
theorem inode_dropped_twoOpens :
    AtEach (InodeCall.run 8) InodeCall.Admitted twoOpens mountedBook ∧
    runSteps (InodeCall.run 8) twoOpens mountedBook = some droppedBook ∧
    droppedBook.2.refs 0x300000 = 1 ∧ droppedBook.2.table.sInodes rootDev = [] ∧
    ¬droppedBook.2.Counted := by
  have held : droppedBook.2.refs 0x300000 = 1 := by decide +kernel
  refine ⟨admitted_twoOpens, (some_get _).symm, held, by decide +kernel, ?_⟩
  intro counted
  have member := counted.cached 0x300000 (by rw [held]; decide)
  revert member
  decide +kernel

end PrettyOS.Fs
