import PrettyOS.Fs.InodeCount
import PrettyOS.Fs.InodeStore
import PrettyOS.Mm.MergeSegments

/-!
Contract: the count of an inode against the areas that map it, over `merge_segments` and the
cuts of `unmap_fixup`.

An area that is merged away counts its inode up instead of dropping its reference, and `iput`
leaves the count of some inodes alone.
-/

namespace PrettyOS.Fs.InodeTable

variable {t after : InodeTable} {fuel inode : Nat}

def Releasable (t : InodeTable) (inode : Nat) : Prop :=
  inode ≠ t.rootInode ∧ (t.inode inode).iDev ≠ 0

instance : Decidable (t.Releasable inode) :=
  inferInstanceAs (Decidable (_ ∧ _))

lemma iput_count {readSuccess writeSuccess : Bool} {res : Int} (ne0 : inode ≠ 0)
    (cnt : 0 < (t.inode inode).iCount)
    (ran : t.iput fuel readSuccess writeSuccess inode = some (res, after)) :
    (after.inode inode).iCount =
      (t.inode inode).iCount - if t.Releasable inode then 1 else 0 := by
  by_cases isRoot : inode = t.rootInode
  · simp [iput, ← isRoot, ne0, cnt.ne'] at ran
    simp [Releasable, isRoot, ran.2]
  by_cases onDevice : (t.inode inode).iDev = 0
  · simp [iput, ne0, cnt.ne', isRoot, onDevice] at ran
    simp [Releasable, ← ran.2, onDevice]
  rw [if_pos ⟨isRoot, onDevice⟩]
  rcases iput_cases ne0 isRoot cnt onDevice ran with ⟨-, rfl⟩ | ⟨last, same⟩
  · simp [setCount]
  · rw [same.count, last]
    simp [setCount, unlist]

end PrettyOS.Fs.InodeTable

namespace PrettyOS.Mm

open Fs (InodeTable)
open Fs.InodeTable (oneInode)
open Library.AvlTree Library.IndexChain List

namespace AddressSpace

variable {s t u : AddressSpace} {files : InodeTable} {fuel inode area new : Nat}

def references (files : InodeTable) (s : AddressSpace) (inode : Nat) : Int :=
  s.iCount inode - if files.Releasable inode then (s.effects.count (.iput inode) : Int) else 0

def mappers (s : AddressSpace) (inode : Nat) : Finset Nat :=
  s.live.filter fun p => (s.vma p).vmInode = inode

lemma mem_mappers {p : Nat} : p ∈ s.mappers inode ↔ p ∈ s.live ∧ (s.vma p).vmInode = inode :=
  Finset.mem_filter

def excess (files : InodeTable) (s : AddressSpace) (inode : Nat) : Int :=
  s.references files inode - (s.mappers inode).card

def SameExcess (files : InodeTable) (s t : AddressSpace) : Prop :=
  ∀ inode, inode ≠ 0 → t.excess files inode = s.excess files inode

structure SameLedger (s t : AddressSpace) : Prop where
  count : t.iCount = s.iCount
  dropped : ∀ inode, t.effects.count (.iput inode) = s.effects.count (.iput inode)
  live : t.live = s.live
  inode : ∀ p, (t.vma p).vmInode = (s.vma p).vmInode

namespace SameLedger

lemma refl : s.SameLedger s := ⟨rfl, fun _ => rfl, rfl, fun _ => rfl⟩

lemma excess (same : s.SameLedger t) : t.excess files inode = s.excess files inode := by
  simp only [AddressSpace.excess, references, mappers, same.count, same.dropped, same.live,
    same.inode]

lemma setVma (same : s.SameLedger t) {vma : Vma} (inode : vma.vmInode = (t.vma area).vmInode) :
    s.SameLedger (t.setVma area vma) := by
  refine ⟨same.count, same.dropped, same.live, fun p => ?_⟩
  by_cases isArea : p = area
  · simp [isArea, AddressSpace.setVma, inode, same.inode]
  · simp [isArea, AddressSpace.setVma, same.inode]

lemma record (same : s.SameLedger t) {effect : Effect} (notIput : ∀ inode, effect ≠ .iput inode) :
    s.SameLedger (t.record effect) := by
  refine ⟨same.count, fun inode => ?_, same.live, same.inode⟩
  simp [AddressSpace.record, same.dropped, notIput]

lemma removeSharedVmStruct : s.SameLedger (removeSharedVmStruct area s) := by
  unfold Mm.removeSharedVmStruct
  dsimp only
  split_ifs <;> refine ⟨rfl, fun _ => ?_, rfl, fun _ => rfl⟩ <;> simp [AddressSpace.record]

lemma insertVmStruct (call : insertVmStruct fuel new s = some t) : s.SameLedger t := by
  rw [Mm.insertVmStruct] at call
  split at call
  · cases call
  cases call
  unfold linkArea insertShare splice
  dsimp only
  split_ifs <;> refine ⟨rfl, fun _ => ?_, rfl, fun _ => rfl⟩ <;>
    simp [AddressSpace.record, AddressSpace.setNext]

end SameLedger

lemma excess_kfree (mem : area ∈ s.live) : (s.kfree area).excess files inode =
    s.excess files inode + if (s.vma area).vmInode = inode then 1 else 0 := by
  have fewer : (s.kfree area).mappers inode = (s.mappers inode).erase area := by
    ext p
    simp [mem_mappers, AddressSpace.kfree, and_assoc]
  by_cases maps : (s.vma area).vmInode = inode
  · have here : area ∈ s.mappers inode := by simp [mem_mappers, mem, maps]
    have pos := Finset.card_pos.mpr ⟨area, here⟩
    rw [excess, excess, fewer, Finset.card_erase_of_mem here, if_pos maps]
    change s.references files inode - _ = _
    omega
  · have absent : area ∉ s.mappers inode := by simp [mem_mappers, maps]
    rw [excess, fewer, Finset.erase_eq_of_notMem absent, if_neg maps, add_zero]
    rfl

lemma excess_duplicate (fresh : new ∉ s.live) : (s.duplicate new area).excess files inode =
    s.excess files inode - if (s.vma area).vmInode = inode then 1 else 0 := by
  have absent : new ∉ s.mappers inode := by simp [mem_mappers, fresh]
  have more : (s.duplicate new area).mappers inode =
      if (s.vma area).vmInode = inode then insert new (s.mappers inode) else s.mappers inode := by
    ext p
    by_cases isNew : p = new
    · by_cases maps : (s.vma area).vmInode = inode <;>
        simp [mem_mappers, duplicate, isNew, maps, fresh]
    · by_cases maps : (s.vma area).vmInode = inode <;>
        simp [mem_mappers, duplicate, isNew, maps]
  rw [excess, excess, more]
  change s.references files inode - _ = _
  split_ifs
  · rw [Finset.card_insert_of_notMem absent]
    push_cast
    ring
  · ring

lemma excess_countInode {cnt : Nat} (room : s.iCount cnt + 1 < 2 ^ 16) :
    (s.countInode cnt).excess files inode =
      s.excess files inode + if cnt = inode then 1 else 0 := by
  have count : (s.countInode cnt).iCount inode =
      s.iCount inode + if cnt = inode then 1 else 0 := by
    by_cases same : inode = cnt
    · subst same
      simp only [countInode, Function.update_self, if_pos]
      omega
    · simp [countInode, same, Ne.symm same]
  have references : (s.countInode cnt).references files inode =
      s.references files inode + if cnt = inode then 1 else 0 := by
    rw [AddressSpace.references, AddressSpace.references, count]
    push_cast
    ring_nf
    rfl
  rw [excess, excess, references]
  change _ - (((s.mappers inode).card : Nat) : Int) = _
  ring

lemma excess_iput {dropped : Nat} : (s.record (.iput dropped)).excess files inode =
    s.excess files inode - if files.Releasable inode ∧ dropped = inode then 1 else 0 := by
  have references : (s.record (.iput dropped)).references files inode =
      s.references files inode - if files.Releasable inode ∧ dropped = inode then 1 else 0 := by
    by_cases same : dropped = inode <;> by_cases releasable : files.Releasable inode <;>
      simp [AddressSpace.references, AddressSpace.record, same, releasable]
    ring
  rw [excess, excess, references]
  change _ - (((s.mappers inode).card : Nat) : Int) = _
  ring

lemma excess_discard (mem : area ∈ s.live) (pos : inode ≠ 0)
    (room : s.iCount (s.vma area).vmInode + 1 < 2 ^ 16) : (discard area s).excess files inode =
      s.excess files inode + if (s.vma area).vmInode = inode then 2 else 0 := by
  have same := @SameLedger.removeSharedVmStruct s area
  rw [discard]
  generalize removeSharedVmStruct area s = left at same ⊢
  rw [← same.inode area] at room ⊢
  rw [← same.count] at room
  have leftMember := same.live ▸ mem
  by_cases null : (left.vma area).vmInode = 0
  · rw [if_neg (by simpa using null), excess_kfree leftMember, same.excess, null,
      if_neg pos.symm, if_neg pos.symm]
  rw [if_pos null, excess_kfree (show area ∈ (left.countInode _).live from leftMember),
    excess_countInode room, same.excess]
  change _ + (if (left.vma area).vmInode = inode then (1 : Int) else 0) = _
  split_ifs <;> ring

structure Raised (files : InodeTable) (s t : AddressSpace) (merged : List Nat) : Prop where
  live : ∀ p, p ∈ t.live ↔ p ∈ s.live ∧ p ∉ merged
  held : ∀ p ∈ merged, p ∈ s.live
  inode : ∀ p, (t.vma p).vmInode = (s.vma p).vmInode
  excess : ∀ inode, inode ≠ 0 → t.excess files inode = s.excess files inode +
    2 * (merged.countP fun p => (s.vma p).vmInode = inode)

lemma closeMerged_sameLedger {prev mpnt : Nat} {avl : Avl} :
    s.SameLedger (closeMerged mpnt (extend prev mpnt { s with avl })) := by
  have ext : s.SameLedger (extend prev mpnt { s with avl }) := by
    refine ⟨rfl, fun _ => rfl, rfl, fun p => ?_⟩
    by_cases isPrev : p = prev <;> simp [extend, setVma, setNext, isPrev]
  unfold closeMerged
  split_ifs
  · apply SameLedger.record
    · exact ext.setVma rfl
    · simp
  · exact ext

lemma discard_inode (p : Nat) : ((discard area s).vma p).vmInode = (s.vma p).vmInode := by
  obtain ⟨u, same, res⟩ := @discard_eq s area
  rw [res]
  exact congrArg Vma.vmInode (congrFun same.vma p)

lemma discard_iCount_le : (discard area s).iCount inode ≤ s.iCount inode + 1 := by
  have same := @SameLedger.removeSharedVmStruct s area
  rw [discard, ← same.count]
  generalize removeSharedVmStruct area s = left
  split_ifs with counts
  · by_cases cnt : inode = (left.vma area).vmInode
    · simpa [kfree, countInode, cnt] using Nat.mod_le _ _
    · simp [kfree, countInode, cnt]
  · exact Nat.le_succ _

theorem mergeInto_merged {prev mpnt : Nat} (ne : prev ≠ mpnt)
    (call : mergeInto fuel prev mpnt s = some t) :
    s.Absorbed t prev mpnt ∧ ∀ p, (t.vma p).vmInode = (s.vma p).vmInode := by
  rw [mergeInto_eq] at call
  obtain ⟨avl, -, rfl⟩ := Option.map_eq_some_iff.mp call
  refine ⟨(absorbed_discard ne).1, fun p => ?_⟩
  rw [discard_inode, closeMerged_sameLedger.inode]

lemma Merges.raised {start last : AddressSpace × List Nat} (steps : Merges start last)
    (room : ∀ inode, start.1.iCount inode + start.2.length < 2 ^ 15) :
    (∃ merged, Raised files start.1 last.1 merged) ∧
      ∀ inode, last.1.iCount inode + last.2.length < 2 ^ 15 := by
  induction steps with
  | refl => exact ⟨⟨[], by simp, by simp, fun _ => rfl, by simp⟩, room⟩
  | tail _ step ih =>
    obtain ⟨⟨merged, raised⟩, room⟩ := ih
    cases step with
    | @merge s avl prev mpnt lower upper mapped merges =>
      have closed := @closeMerged_sameLedger s prev mpnt avl
      have mem := mapped.live mpnt (by simp)
      have live := (@absorbed_discard s prev mpnt avl mapped.nodup_merge.1).1.live
      have started := ((raised.live mpnt).mp mem).1
      generalize closeMerged mpnt (extend prev mpnt { s with avl }) = c at closed live ⊢
      have within := room (c.vma mpnt).vmInode
      rw [← closed.count] at within
      refine ⟨⟨mpnt :: merged, ?_, ?_, ?_, ?_⟩, ?_⟩
      · intro p
        rw [live, Finset.mem_erase, raised.live, mem_cons]
        tauto
      · exact forall_mem_cons.mpr ⟨started, raised.held⟩
      · intro p
        rw [discard_inode, closed.inode, raised.inode]
      · intro inode pos
        rw [excess_discard (closed.live ▸ mem) pos (by omega), closed.excess,
          closed.inode, raised.excess inode pos, raised.inode, countP_cons]
        by_cases maps : (start.1.vma mpnt).vmInode = inode <;> simp [maps]
        ring
      · intro inode
        have before := room inode
        have after := @discard_iCount_le c inode mpnt
        rw [closed.count] at after
        simp only [length_append, length_cons] at before ⊢
        omega

lemma Raised.sameExcess_iff {merged : List Nat} (raised : Raised files s t merged) :
    SameExcess files s t ↔ ∀ p ∈ s.live, p ∉ t.live → (s.vma p).vmInode = 0 := by
  have freed : ∀ p ∈ s.live, (p ∉ t.live ↔ p ∈ merged) := fun p mem => by
    simp [raised.live, mem]
  constructor
  · intro same p mem left
    by_contra pos
    have counts := same _ pos
    rw [raised.excess _ pos] at counts
    have mapsIt : 0 < merged.countP fun q => (s.vma q).vmInode = (s.vma p).vmInode :=
      countP_pos_iff.mpr ⟨p, (freed p mem).mp left, by simp⟩
    omega
  · intro anonymous inode pos
    have none : merged.countP (fun p => (s.vma p).vmInode = inode) = 0 := by
      refine countP_eq_zero.mpr fun p mem => ?_
      have held := raised.held p mem
      simpa [anonymous p held ((freed p held).mpr mem)] using pos.symm
    simp [raised.excess inode pos, none]

lemma openVma_sameLedger : s.SameLedger (s.openVma area) := by
  unfold openVma
  split_ifs
  · exact SameLedger.refl.record (by simp)
  · exact SameLedger.refl

lemma closeEmptied_sameLedger : s.SameLedger (closeEmptied area s) := by
  unfold closeEmptied
  split_ifs
  · apply SameLedger.record
    · exact SameLedger.refl.setVma rfl
    · simp
  · exact SameLedger.refl

structure Shifted (files : InodeTable) (s t : AddressSpace) (area : Nat) (change : Int) : Prop where
  excess : ∀ inode, inode ≠ 0 → t.excess files inode = s.excess files inode +
    if (s.vma area).vmInode = inode then change else 0
  inode : (t.vma area).vmInode = (s.vma area).vmInode
  live : area ∈ t.live

namespace Shifted

variable {change more : Int}

lemma trans (first : Shifted files s t area change) (second : Shifted files t u area more) :
    Shifted files s u area (change + more) := by
  refine ⟨fun inode pos => ?_, second.inode.trans first.inode, second.live⟩
  rw [second.excess inode pos, first.excess inode pos, first.inode]
  split_ifs <;> ring

lemma of_sameLedger (same : s.SameLedger t) (areaLive : area ∈ s.live) : Shifted files s t area 0 :=
  ⟨by simp [same.excess], same.inode area, same.live ▸ areaLive⟩

section

variable (shifted : Shifted files s t area change)
include shifted

lemma then_same (same : t.SameLedger u) : Shifted files s u area change := by
  simpa using shifted.trans (of_sameLedger same shifted.live)

lemma setVma {wrote : Nat} {vma : Vma} (inode : vma.vmInode = (t.vma wrote).vmInode) :
    Shifted files s (t.setVma wrote vma) area change :=
  shifted.then_same (SameLedger.refl.setVma inode)

lemma of_anonymous (null : (s.vma area).vmInode = 0) : Shifted files s t area more := by
  refine ⟨fun inode pos => ?_, shifted.inode, shifted.live⟩
  rw [shifted.excess inode pos, null, if_neg pos.symm, if_neg pos.symm]

end

lemma duplicate (areaLive : area ∈ s.live) (fresh : new ∉ s.live) :
    Shifted files s (s.duplicate new area) area (-1) := by
  have apart : area ≠ new := fun same => fresh (same ▸ areaLive)
  refine ⟨fun inode _ => ?_, ?_, ?_⟩
  · rw [excess_duplicate fresh]
    split_ifs <;> ring
  · simp [AddressSpace.duplicate, apart]
  · simp [AddressSpace.duplicate, areaLive]

lemma count (shifted : Shifted files s t area change)
    (room : t.iCount (s.vma area).vmInode + 1 < 2 ^ 16) :
    Shifted files s (t.countInode (s.vma area).vmInode) area (change + 1) := by
  refine ⟨fun inode pos => ?_, shifted.inode, shifted.live⟩
  rw [excess_countInode room, shifted.excess inode pos]
  split_ifs <;> ring

lemma iput (shifted : Shifted files s t area change) :
    Shifted files s (t.record (.iput (s.vma area).vmInode)) area
      (change - if files.Releasable (s.vma area).vmInode then 1 else 0) := by
  refine ⟨fun inode pos => ?_, shifted.inode, shifted.live⟩
  rw [excess_iput, shifted.excess inode pos]
  by_cases maps : (s.vma area).vmInode = inode
  · simp [maps]
    ring
  · simp [maps]

end Shifted

section Cuts

variable {addr last st stop : Nat} (k : Allocator) (areaLive : area ∈ s.live)
include areaLive

lemma shifted_insertLower (call : insertLower fuel k.kmalloc area addr s = some t) :
    Shifted files s t area (-1) := by
  rw [insertLower] at call
  dsimp only at call
  rw [if_neg (k.notNull s.live)] at call
  have copied : Shifted files s _ area (-1) := Shifted.duplicate areaLive (k.fresh s.live)
  refine Shifted.then_same ?_ (SameLedger.insertVmStruct call)
  refine Shifted.then_same (Shifted.then_same ?_ openVma_sameLedger) closeEmptied_sameLedger
  exact copied.setVma rfl

lemma shifted_insertLower_set {vma : Vma} (inode : vma.vmInode = (s.vma area).vmInode)
    (call : insertLower fuel k.kmalloc area addr (s.setVma area vma) = some t) :
    Shifted files s t area (-1) := by
  have same := SameLedger.refl.setVma inode
  have lower : Shifted files _ t area (-1) := shifted_insertLower k (same.live ▸ areaLive) call
  simpa using (Shifted.of_sameLedger same areaLive).trans lower

lemma shifted_whole {closed : AddressSpace} (same : s.SameLedger closed) :
    Shifted files s (if (s.vma area).vmInode ≠ 0 then closed.record (.iput (s.vma area).vmInode)
      else closed) area (if ¬ files.Releasable (s.vma area).vmInode then 0 else -1) := by
  have kept : Shifted files s closed area 0 := Shifted.of_sameLedger same areaLive
  split_ifs with maps releasable
  · simpa [releasable] using kept.iput
  · simpa [releasable] using kept.iput
  · exact kept.of_anonymous (not_not.mp maps)
  · exact kept.of_anonymous (not_not.mp maps)

lemma shifted_insertUpper (room : s.iCount (s.vma area).vmInode + 1 < 2 ^ 16)
    (call : insertUpper fuel k.kmalloc area last s = some (some t)) : Shifted files s t area 0 := by
  rw [insertUpper] at call
  dsimp only at call
  rw [if_neg (k.notNull s.live), duplicate_vma_new] at call
  obtain ⟨_, call, same⟩ := Option.map_eq_some_iff.mp call
  cases same
  have copied : Shifted files s _ area (-1) := Shifted.duplicate areaLive (k.fresh s.live)
  refine Shifted.then_same ?_ (SameLedger.insertVmStruct call)
  refine Shifted.then_same ?_ openVma_sameLedger
  split_ifs with mapsInode
  · change Shifted _ _ _ _ (-1 + 1)
    refine Shifted.count ?_ ?_
    · exact copied.setVma (by rw [duplicate_vma_new])
    · exact room
  · exact (copied.setVma (by rw [duplicate_vma_new])).of_anonymous (not_not.mp mapsInode)

lemma shifted_unmapFixup (stLow : s.vmStart area ≤ st) (inside : st < stop)
    (stopHigh : stop ≤ s.vmEnd area) (inWord : s.vmEnd area < wordSize)
    (room : s.iCount (s.vma area).vmInode + 1 < 2 ^ 16)
    (call : unmapFixup fuel k.kmalloc area st (subWord stop st) s = some t) :
    Shifted files s t area (if st = s.vmStart area ∧ stop = s.vmEnd area ∧
      ¬ files.Releasable (s.vma area).vmInode then 0 else -1) := by
  rw [unmapFixup_inside k stLow inside stopHigh inWord] at call
  by_cases whole : st = s.vmStart area ∧ stop = s.vmEnd area
  · rw [if_pos whole] at call
    simp only [whole, true_and]
    cases call
    refine shifted_whole areaLive ?_
    split_ifs
    · exact SameLedger.refl.record (by simp)
    · exact SameLedger.refl
  rw [if_neg whole] at call
  rw [if_neg (fun cut => whole ⟨cut.1, cut.2.1⟩)]
  split_ifs at call with atEnd atStart
  · exact shifted_insertLower_set k areaLive (by rfl) call
  · exact shifted_insertLower_set k areaLive (by rfl) call
  cases upper : insertUpper fuel k.kmalloc area stop s with
  | none => simp [upper] at call
  | some ins =>
    cases ins with
    | none => simp [insertUpper, k.notNull] at upper
    | some u =>
      rw [upper] at call
      have first : Shifted files s u area 0 := shifted_insertUpper k areaLive room upper
      have second : Shifted files u t area (-1) := shifted_insertLower k first.live call
      simpa using first.trans second

end Cuts

lemma excess_releaseArea {addr last : Nat} (k : Allocator) (areaLive : area ∈ s.live)
    (laps : s.Overlaps addr last area) (forward : addr < last)
    (room : s.iCount (s.vma area).vmInode + 1 < 2 ^ 16)
    (call : releaseArea fuel k.kmalloc addr last area s = some t) (pos : inode ≠ 0) :
    t.excess files inode = s.excess files inode +
      if (s.vma area).vmInode = inode ∧ addr ≤ s.vmStart area ∧ s.vmEnd area ≤ last ∧
        ¬ files.Releasable inode then 1 else 0 := by
  obtain ⟨u, same, announced, freed⟩ := @releaseArea_eq s fuel addr last area k.kmalloc
  have ledger : s.SameLedger u := by
    rcases announced with rfl | ⟨_, _, rfl⟩
    · exact SameLedger.removeSharedVmStruct
    · exact SameLedger.removeSharedVmStruct.record (by simp)
  obtain ⟨starts, ends⟩ := same.bounds area
  obtain ⟨_, _, _, _⟩ := laps
  rw [freed] at call
  obtain ⟨cut, fixed, rfl⟩ := Option.map_eq_some_iff.mp call
  have shifted : Shifted files u cut area _ :=
    shifted_unmapFixup k (ledger.live ▸ areaLive) (by omega) (by omega) (by omega) (by omega)
      (by rwa [ledger.count, ledger.inode]) fixed
  rw [excess_kfree shifted.live, shifted.excess inode pos, ledger.excess, shifted.inode,
    ledger.inode, starts, ends]
  by_cases maps : (s.vma area).vmInode = inode
  · simp only [maps, if_true, true_and, max_eq_right_iff, min_eq_right_iff]
    split_ifs <;> ring
  · simp [maps]

/-! ## Which areas `merge_segments` frees -/

/-- No two neighbours that the loop can reach and merge map an inode. -/
def Silent (s : AddressSpace) (endAddr : Nat) (areas : List Nat) : Prop :=
  ∀ p q, [p, q] <:+: areas → s.vmStart p < endAddr → mergeable s p q = true →
    (s.vma q).vmInode = 0

theorem pair_infix_cons {p q first second : Nat} {rest : List Nat} :
    [p, q] <:+: first :: second :: rest ↔ p = first ∧ q = second ∨ [p, q] <:+: second :: rest := by
  rw [infix_cons_iff, cons_prefix_cons, cons_prefix_cons]
  simp only [ nil_prefix, and_true]

theorem silent_singleton {endAddr : Nat} : s.Silent endAddr [area] := by
  intro p q pair
  have longer := pair.length_le
  simp at longer

theorem silent_cons {endAddr p q : Nat} {rest : List Nat} :
    s.Silent endAddr (p :: q :: rest) ↔
      (s.vmStart p < endAddr → mergeable s p q = true → (s.vma q).vmInode = 0) ∧
        s.Silent endAddr (q :: rest) := by
  constructor
  · intro silent
    exact ⟨silent p q (pair_infix_cons.mpr (.inl ⟨rfl, rfl⟩)),
      fun p' q' pair => silent p' q' (pair_infix_cons.mpr (.inr pair))⟩
  · rintro ⟨first, later⟩ p' q' pair
    rcases pair_infix_cons.mp pair with ⟨rfl, rfl⟩ | pair
    · exact first
    · exact later p' q' pair

theorem mergeable_inode {p q : Nat} (merges : mergeable s p q = true) :
    (s.vma q).vmInode = (s.vma p).vmInode := by
  simp only [mergeable, Bool.and_eq_true, beq_iff_eq] at merges
  exact merges.1.1.1.1.1

/-- Whether an anonymous area comes before decides nothing: what merges with it is anonymous. -/
theorem silent_of_anonymous {endAddr p : Nat} {rest : List Nat} (null : (s.vma p).vmInode = 0) :
    s.Silent endAddr (p :: rest) ↔ s.Silent endAddr rest := by
  cases rest with
  | nil =>
    refine iff_of_true silent_singleton fun _ _ pair => ?_
    cases eq_nil_of_infix_nil pair
  | cons q rest =>
    rw [silent_cons]
    refine and_iff_right_of_imp fun _ _ merges => ?_
    rw [mergeable_inode merges, null]

theorem Silent.congr {endAddr : Nat} {areas : List Nat} (same : ∀ p ∈ areas, t.vma p = s.vma p) :
    t.Silent endAddr areas ↔ s.Silent endAddr areas := by
  refine forall₂_congr fun p q => imp_congr_right fun pair => ?_
  have isP := same p (pair.subset (by simp))
  have isQ := same q (pair.subset (by simp))
  rw [vmStart, vmStart, mergeable, mergeable, isP, isQ]

theorem Ascending.silent_of_above {endAddr first : Nat} {rest : List Nat}
    (ascending : s.Ascending (first :: rest)) (above : ¬ s.vmStart first < endAddr) :
    s.Silent endAddr (first :: rest) := by
  intro p q pair below
  have member : p ∈ first :: rest := pair.subset (by simp)
  rcases mem_cons.mp member with rfl | later
  · exact absurd below above
  have start := ascending.nonempty first mem_cons_self
  have apart := (pairwise_cons.mp ascending.apart).1 p later
  omega

/-- An area that maps an inode is freed just where two neighbours that map one merge. The
induction is on the areas still to come; `prev` stays the same after a merge. -/
theorem mergeLoop_freed {avlFuel endAddr prev : Nat} {lower rest : List Nat}
    (mapped : s.Mapped (lower ++ prev :: rest)) (enough : rest.length < fuel)
    (avlEnough : (lower ++ prev :: rest).length < avlFuel)
    (ran : mergeLoop avlFuel endAddr fuel prev (rest.headD 0) s = some t) :
    t.live ⊆ s.live ∧ ((∀ p ∈ s.live, p ∉ t.live → (s.vma p).vmInode = 0) ↔
      s.Silent endAddr (prev :: rest)) := by
  induction rest generalizing s lower prev fuel with
  | nil =>
    obtain ⟨fuel, rfl⟩ := Nat.exists_eq_succ_of_ne_zero (Nat.ne_zero_of_lt enough)
    obtain rfl : s = t := by simpa [mergeLoop] using ran
    exact ⟨subset_rfl, iff_of_true (fun p mem notMem => absurd mem notMem) silent_singleton⟩
  | cons mpnt rest ih =>
    obtain ⟨fuel, rfl⟩ := Nat.exists_eq_succ_of_ne_zero (Nat.ne_zero_of_lt enough)
    have ne0 := mapped.ne_zero (show mpnt ∈ lower ++ prev :: mpnt :: rest by simp)
    have moved : lower ++ prev :: mpnt :: rest = (lower ++ [prev]) ++ mpnt :: rest := by simp
    have onward := (moved ▸ mapped).next_eq
    rw [headD_cons, mergeLoop] at ran
    by_cases inside : s.vmStart prev < endAddr
    swap
    · rw [if_neg (fun both => inside both.2)] at ran
      cases ran
      have ascending := mapped.ascending.sublist (sublist_append_right lower _)
      exact ⟨subset_rfl, iff_of_true (fun p mem notMem => absurd mem notMem)
        (ascending.silent_of_above inside)⟩
    rw [if_pos ⟨ne0, inside⟩] at ran
    dsimp only at ran
    rw [onward] at ran
    by_cases merges : mergeable s prev mpnt
    swap
    · rw [if_neg merges] at ran
      rw [silent_cons, and_iff_right fun _ isMerged => absurd isMerged merges]
      exact ih (moved ▸ mapped) (by simpa using enough) (moved ▸ avlEnough) ran
    obtain ⟨u, call, after, -⟩ := mergeInto_step mapped merges avlEnough
    rw [if_pos merges, call] at ran
    obtain ⟨fewer, freed⟩ := ih after (by simpa using enough) (by simp at avlEnough ⊢; omega) ran
    obtain ⟨absorbed, inodes⟩ := mergeInto_merged mapped.nodup_merge.1 call
    have live := absorbed.live
    have mpntLive := mapped.live mpnt (by simp)
    rw [silent_cons, imp_iff_right inside, imp_iff_right merges]
    refine ⟨fewer.trans (live ▸ Finset.erase_subset _ _), ?_⟩
    have split : (∀ p ∈ s.live, p ∉ t.live → (s.vma p).vmInode = 0) ↔
        (s.vma mpnt).vmInode = 0 ∧ ∀ p ∈ u.live, p ∉ t.live → (u.vma p).vmInode = 0 := by
      simp only [live, Finset.mem_erase, inodes]
      have gone : mpnt ∉ t.live := fun mem => by simpa [live] using fewer mem
      constructor
      · intro all
        exact ⟨all mpnt mpntLive gone, fun p mem => all p mem.2⟩
      · rintro ⟨null, all⟩ p mem notMem
        by_cases isMpnt : p = mpnt
        · rw [isMpnt, null]
        · exact all p ⟨isMpnt, mem⟩ notMem
    rw [split, freed]
    refine and_congr_right fun null => ?_
    have prevNull : (u.vma prev).vmInode = 0 := by
      rw [inodes, ← mergeable_inode merges, null]
    rw [silent_of_anonymous prevNull, silent_of_anonymous null]
    exact Silent.congr fun p mem => absorbed.same mapped (.inr mem)

theorem pair_infix_append {p q last : Nat} {front rest : List Nat} :
    [p, q] <:+: front ++ last :: rest ↔
      [p, q] <:+: front ++ [last] ∨ [p, q] <:+: last :: rest := by
  induction front with
  | nil =>
    refine (or_iff_right fun pair => ?_).symm
    have longer := pair.length_le
    simp at longer
  | cons first front ih =>
    cases front with
    | nil =>
      simp only [cons_append, nil_append, pair_infix_cons]
      refine or_congr_left (or_iff_left fun pair => ?_).symm
      have longer := pair.length_le
      simp at longer
    | cons second front =>
      simp only [cons_append] at ih ⊢
      rw [pair_infix_cons, pair_infix_cons, ih, or_assoc]

/-- The areas that end at or before `start_addr` take no part, the last of them apart. -/
theorem mergeSegments_freed {chain : List Nat} {startAddr endAddr : Nat} (mapped : s.Mapped chain)
    (enough : chain.length < fuel) (ran : mergeSegments fuel startAddr endAddr s = some t) :
    (∀ p ∈ s.live, p ∉ t.live → (s.vma p).vmInode = 0) ↔
      ∀ p q, [p, q] <:+: chain → startAddr < s.vmEnd q → s.vmStart p < endAddr →
        mergeable s p q = true → (s.vma q).vmInode = 0 := by
  obtain ⟨-, _, holds, _, walk⟩ := mapped.consistent
  obtain ⟨lower, upper, rfl, below, above⟩ := exists_lookup mapped.ascending startAddr
  rw [mergeSegments, findVma_spec holds walk mapped.ascending below above enough] at ran
  cases upper with
  | nil =>
    cases ran
    refine iff_of_true (fun p mem notMem => absurd mem notMem) fun p q pair ends => ?_
    have member : q ∈ lower ++ [] := pair.subset (by simp)
    rw [append_nil] at member
    exact absurd ends (below q member).not_gt
  | cons mpnt rest =>
    have ne0 := mapped.ne_zero (show mpnt ∈ lower ++ mpnt :: rest by simp)
    have ord := mapped.ascending
    rw [← walk] at ord
    rw [headD_cons] at ran
    dsimp only at ran
    rw [if_neg ne0, avlNeighbours_eq holds ord.ordered walk (walk.symm ▸ enough)] at ran
    rcases eq_nil_or_concat' lower with rfl | ⟨front, prev, rfl⟩
    · rw [(mergeLoop_freed mapped (by grind) (by grind) ran).2]
      refine forall₂_congr fun p q => imp_congr_right fun pair => (imp_iff_right ?_).symm
      exact above q (pair.subset (by simp))
    have prevNe := mapped.ne_zero (show prev ∈ front ++ [prev] ++ mpnt :: rest by simp)
    rw [append_assoc, singleton_append] at mapped enough ⊢
    rw [getLastD_concat] at ran
    dsimp only at ran
    rw [if_neg prevNe] at ran
    rw [(mergeLoop_freed mapped (by grind) (by grind) ran).2]
    constructor
    · intro silent p q pair ends
      rcases pair_infix_append.mp pair with early | late
      · exact absurd ends (below q (early.subset (by simp))).not_gt
      · exact silent p q late
    · intro all p q pair
      refine all p q (pair_infix_append.mpr (.inr pair)) ?_
      rcases pair_infix_cons.mp pair with ⟨-, rfl⟩ | later
      · exact above q mem_cons_self
      · exact above q (later.subset (by simp))

/-- `merge_segments` keeps the differences when no two neighbours in its range that can be merged
map an inode; a round of `do_munmap` keeps them unless the whole area is cut and `iput` leaves its
inode alone. A recorded `iput` counts as the call counts. -/
theorem mergeSegments_releaseArea_sameExcess {chain : List Nat} (files : InodeTable) (k : Allocator)
    (mapped : s.Mapped chain) (enough : chain.length < fuel)
    (room : ∀ inode, s.iCount inode + chain.length < 2 ^ 15) (startAddr endAddr : Nat)
    {tree : HeightTree Nat} {free addr last : Nat} {rest : List Nat}
    (pending : u.Pending fuel tree free (area :: rest)) (overlaps : u.Overlaps addr last area)
    (forward : addr < last) (roomCut : ∀ inode, u.iCount inode + 1 < 2 ^ 15) :
    (∃ t, mergeSegments fuel startAddr endAddr s = some t ∧
      (SameExcess files s t ↔ ∀ p q, [p, q] <:+: chain → startAddr < s.vmEnd q →
        s.vmStart p < endAddr → mergeable s p q = true → (s.vma q).vmInode = 0)) ∧
    (∃ t, releaseArea fuel k.kmalloc addr last area u = some t ∧
      (SameExcess files u t ↔ (addr ≤ u.vmStart area → u.vmEnd area ≤ last →
        (u.vma area).vmInode ≠ 0 → files.Releasable (u.vma area).vmInode))) ∧
    ∀ ioFuel readSuccess writeSuccess inode res after, inode ≠ 0 →
      0 < (files.inode inode).iCount →
      files.iput ioFuel readSuccess writeSuccess inode = some (res, after) →
      (after.inode inode).iCount =
        (files.inode inode).iCount - if files.Releasable inode then 1 else 0 := by
  refine ⟨?_, ?_, fun _ _ _ _ _ _ isInode counted put => files.iput_count isInode counted put⟩
  · obtain ⟨t, _, call, -, steps⟩ := mergeSegments_merges mapped enough startAddr endAddr
    obtain ⟨⟨_, raised⟩, -⟩ := Merges.raised steps room
    exact ⟨t, call, raised.sameExcess_iff.trans (mergeSegments_freed mapped enough call)⟩
  obtain ⟨t, -, call, -, -⟩ := pending.round k overlaps forward
  have areaLive := pending.restLive area mem_cons_self
  have within := roomCut (u.vma area).vmInode
  have excess {inode : Nat} (positive : inode ≠ 0) :=
    @excess_releaseArea u t files fuel inode area addr last k areaLive overlaps forward
      (by omega) call positive
  refine ⟨t, call, fun same low high positive => ?_, fun releases inode positive => ?_⟩
  · have counts := same _ positive
    rw [excess positive] at counts
    by_contra kept
    simp [low, high, kept] at counts
  · rw [excess positive, if_neg, add_zero]
    rintro ⟨rfl, low, high, kept⟩
    exact kept (releases low high positive)

def collectedPage : AddressSpace :=
  { splitPages 7 with avl := ⟨fun _ _ => 0, fun _ => 0, 0⟩, next := fun _ => 0 }

lemma collectedPage_pending : collectedPage.Pending 4 .leaf 1 [1] := by
  constructor <;> simp [collectedPage, splitPages, HeightTree.inorder, Linked]
  exact ⟨trivial, rfl⟩

theorem sameExcess_collectedPage :
    (∃ t, mergeSegments 4 0x1000 0x3000 (splitPages 0) = some t ∧
      SameExcess oneInode (splitPages 0) t) ∧
    ∃ t, releaseArea 4 bumpAllocator.kmalloc 0x1000 0x2000 1 collectedPage = some t ∧
      SameExcess oneInode collectedPage t := by
  obtain ⟨⟨t, merged, kept⟩, ⟨t', released, kept'⟩, -⟩ :=
    mergeSegments_releaseArea_sameExcess oneInode bumpAllocator (splitPages_mapped 0) (by decide)
      (by simp [splitPages]) 0x1000 0x3000 collectedPage_pending
      (show collectedPage.Overlaps 0x1000 0x2000 1 from
        ⟨by decide, by decide, by decide, by decide⟩)
      (by decide) (by simp [collectedPage, splitPages])
  exact ⟨⟨t, merged, kept.mpr fun _ _ _ _ _ _ => rfl⟩, t', released,
    kept'.mpr fun _ _ _ => by decide⟩

/-- Merging two areas of inode 7 raises its count to three for the one area that is left, and
the root inode keeps the reference of an area that is cut as a whole. -/
theorem merged_inode_exceeds :
    (∃ t, mergeSegments 4 0x1000 0x3000 (splitPages 7) = some t ∧
      (splitPages 7).excess oneInode 7 = 0 ∧
      t.iCount 7 = 3 ∧ t.excess oneInode 7 = 2) ∧
    ∃ t, releaseArea 4 bumpAllocator.kmalloc 0x1000 0x2000 1 collectedPage = some t ∧
      collectedPage.excess { oneInode with rootInode := 7 } 7 = 0 ∧
      t.excess { oneInode with rootInode := 7 } 7 = 1 :=
  ⟨⟨_, rfl, by decide, by decide, by decide⟩, _, rfl, by decide, by decide⟩

end AddressSpace

end PrettyOS.Mm
