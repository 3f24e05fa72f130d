import PrettyOS.Library.CircularList
import PrettyOS.Mm.VmaList

/-!
Contract: the rings of the areas that share an inode, over any run of `insert_vm_struct` and
`remove_shared_vm_struct`.
-/

namespace PrettyOS.Mm

open Function (update update_self update_of_ne)
open Library (Circular)
open Library.AvlTree List Function

namespace AddressSpace

variable {s t : AddressSpace} {fuel inode area : Nat} {ring : List Nat} {inserted : Finset Nat}

def Ring (s : AddressSpace) (inode : Nat) : List Nat → Prop
  | [] => s.iMmap inode = 0
  | share :: rest => s.iMmap inode = share ∧ Circular s.nextShare s.prevShare share rest

structure Ringed (s : AddressSpace) (inserted : Finset Nat) : Prop where
  notNull : 0 ∉ inserted
  ring : ∀ inode, inode ≠ 0 →
    ∃ ring, s.Ring inode ring ∧ ∀ p, p ∈ ring ↔ p ∈ inserted ∧ (s.vma p).vmInode = inode

structure SameRings (s t : AddressSpace) (inserted : Finset Nat) : Prop where
  nextShare : t.nextShare = s.nextShare
  prevShare : t.prevShare = s.prevShare
  iMmap : t.iMmap = s.iMmap
  inode : ∀ p ∈ inserted, (t.vma p).vmInode = (s.vma p).vmInode

lemma Ring.congr (isRing : s.Ring inode ring) (header : t.iMmap inode = s.iMmap inode)
    (eqNext : ∀ p ∈ ring, t.nextShare p = s.nextShare p)
    (eqPrev : ∀ p ∈ ring, t.prevShare p = s.prevShare p) : t.Ring inode ring := by
  cases ring with
  | nil => exact header.trans isRing
  | cons share rest => exact ⟨header.trans isRing.1, isRing.2.congr eqNext eqPrev⟩

lemma Ring.nodup (isRing : s.Ring inode ring) : ring.Nodup := by
  cases ring with
  | nil => exact nodup_nil
  | cons share rest => exact isRing.2.nodup

lemma Ringed.congr (ringed : s.Ringed inserted) (same : s.SameRings t inserted) :
    t.Ringed inserted := by
  refine ⟨ringed.notNull, fun inode pos => ?_⟩
  obtain ⟨ring, isRing, listed⟩ := ringed.ring inode pos
  refine ⟨ring, isRing.congr (by rw [same.iMmap]) (by simp [same.nextShare])
    (by simp [same.prevShare]), fun p => ?_⟩
  rw [listed p]
  exact and_congr_right fun mem => by rw [same.inode p mem]

lemma Ringed.of_anonymous {inserted' : Finset Nat} (ringed : s.Ringed inserted)
    (ne0 : 0 ∉ inserted') (anonymous : (s.vma area).vmInode = 0)
    (others : ∀ p, p ≠ area → (p ∈ inserted' ↔ p ∈ inserted)) : s.Ringed inserted' := by
  refine ⟨ne0, fun inode pos => ?_⟩
  obtain ⟨ring, isRing, listed⟩ := ringed.ring inode pos
  refine ⟨ring, isRing, fun p => ?_⟩
  rw [listed p]
  refine and_congr_left fun maps => (others p ?_).symm
  rintro rfl
  exact pos (maps ▸ anonymous)

structure Rewired (s t : AddressSpace) (inode : Nat) (touched ring : List Nat) : Prop where
  isRing : t.Ring inode ring
  links : ∀ p ∉ touched, t.nextShare p = s.nextShare p ∧ t.prevShare p = s.prevShare p
  headers : ∀ other, other ≠ inode → t.iMmap other = s.iMmap other

lemma Ringed.exchange {inserted' : Finset Nat} {touched : List Nat} (ringed : s.Ringed inserted)
    (rewired : s.Rewired t inode touched ring) (vma : t.vma = s.vma) (ne0 : 0 ∉ inserted')
    (own : ∀ p ∈ touched, (s.vma p).vmInode = inode)
    (listed : ∀ p, p ∈ ring ↔ p ∈ inserted' ∧ (s.vma p).vmInode = inode)
    (others : ∀ p, (s.vma p).vmInode ≠ inode → (p ∈ inserted' ↔ p ∈ inserted)) :
    t.Ringed inserted' := by
  refine ⟨ne0, fun other pos => ?_⟩
  rw [vma]
  by_cases same : other = inode
  · exact ⟨ring, same ▸ rewired.isRing, same ▸ listed⟩
  obtain ⟨kept, isKept, listedKept⟩ := ringed.ring other pos
  have apart : ∀ p, (s.vma p).vmInode = other → (s.vma p).vmInode ≠ inode :=
    fun p maps => maps ▸ same
  have links : ∀ p ∈ kept, t.nextShare p = s.nextShare p ∧ t.prevShare p = s.prevShare p :=
    fun p mem => rewired.links p fun touches =>
      apart p ((listedKept p).mp mem).2 (own p touches)
  refine ⟨kept, isKept.congr (rewired.headers other same) (fun p mem => (links p mem).1)
    fun p mem => (links p mem).2, fun p => ?_⟩
  rw [listedKept p]
  exact and_congr_left fun maps => (others p (apart p maps)).symm

lemma insertShare_rewired (isRing : s.Ring (s.vma area).vmInode ring)
    (pos : (s.vma area).vmInode ≠ 0) (ne0 : 0 ∉ ring) (fresh : area ∉ ring) :
    ∃ ring', s.Rewired (insertShare area s) (s.vma area).vmInode (area :: ring) ring' ∧
      ∀ p, p ∈ ring' ↔ p = area ∨ p ∈ ring := by
  cases ring with
  | nil =>
    have empty : s.iMmap (s.vma area).vmInode = 0 := isRing
    refine ⟨[area], ⟨?_, fun p out => ?_, fun other ne => ?_⟩, by simp⟩
    all_goals simp only [insertShare, pos, if_false, empty, ne_eq, not_true]
    · exact ⟨update_self _ _ _, Circular.nil (update_self _ _ _) (update_self _ _ _)⟩
    · simp_all
    · exact update_of_ne ne _ _
  | cons share rest =>
    obtain ⟨header, circ⟩ := isRing
    have place : rest.headD share ∈ share :: rest := Library.Linked.headD_mem
    have isNext := circ.linked.next_first
    have isPrev := @Library.Linked.prev_place _ _ _ share share [] rest circ.linked
    have notShare : share ≠ 0 := fun null => ne0 (null ▸ mem_cons_self)
    have notPlace : rest.headD share ≠ area := fun same => fresh (same ▸ place)
    refine ⟨share :: area :: rest, ⟨?_, fun p out => ?_, fun other _ => ?_⟩, by simp [or_left_comm]⟩
    all_goals simp only [insertShare, pos, if_false, header, notShare, ne_eq, not_false_iff,
      if_true, isNext, update_self]
    · refine ⟨header, ?_⟩
      have grown := @Circular.insert _ _ _ share area [] rest _ circ fresh
      rw [isPrev, update_comm notPlace.symm] at grown
      exact grown
    · have notNext : p ≠ rest.headD share := by
        rintro rfl
        exact out (mem_cons_of_mem _ place)
      rw [mem_cons, mem_cons, not_or, not_or] at out
      rw [update_of_ne out.2.1, update_of_ne out.1, update_of_ne out.1, update_of_ne notNext]
      exact ⟨rfl, rfl⟩

section

variable (ringed : s.Ringed inserted) (fresh : area ∉ inserted) (ne0 : area ≠ 0)
include ringed fresh ne0

lemma Ringed.insertShare : (insertShare area s).Ringed (insert area inserted) := by
  have stillNotNull : 0 ∉ insert area inserted := by simp [ringed.notNull, ne0.symm]
  by_cases pos : (s.vma area).vmInode = 0
  · simp only [Mm.insertShare, pos, if_true]
    exact ringed.of_anonymous stillNotNull pos (by simp +contextual)
  obtain ⟨ring, isRing, listed⟩ := ringed.ring _ pos
  have ringNotNull : 0 ∉ ring := fun null => ringed.notNull ((listed 0).mp null).1
  have out : area ∉ ring := fun mem => fresh ((listed area).mp mem).1
  obtain ⟨_, rewired, grown⟩ := insertShare_rewired isRing pos ringNotNull out
  refine ringed.exchange rewired insertShare_sameAreas.vma stillNotNull ?_ (fun p => ?_) ?_
  · exact forall_mem_cons.mpr ⟨rfl, fun p mem => ((listed p).mp mem).2⟩
  · rw [grown, listed, Finset.mem_insert]
    by_cases isArea : p = area <;> simp [isArea]
  intro p apart
  rw [Finset.mem_insert, or_iff_right]
  rintro rfl
  exact apart rfl

lemma Ringed.insertVmStruct (call : insertVmStruct fuel area s = some t) :
    t.Ringed (insert area inserted) := by
  rw [Mm.insertVmStruct] at call
  split at call
  · cases call
  cases call
  apply Ringed.insertShare _ fresh ne0
  refine ringed.congr ?_
  unfold splice
  split_ifs <;> exact ⟨rfl, rfl, rfl, fun _ _ => rfl⟩

end

lemma removeSharedVmStruct_unlinks {header : Nat} {front back : List Nat}
    (circ : Circular s.nextShare s.prevShare header (front ++ area :: back))
    (pos : (s.vma area).vmInode ≠ 0)
    (listed : ∀ p ∈ header :: (front ++ area :: back), p ∈ ring)
    (entry : (if s.iMmap (s.vma area).vmInode = area then s.nextShare area
      else s.iMmap (s.vma area).vmInode) = header) :
    s.Rewired (removeSharedVmStruct area s) (s.vma area).vmInode ring
      (header :: (front ++ back)) := by
  have notAlone : s.nextShare area ≠ area := by
    intro same
    have nodup := circ.nodup
    rw [circ.linked.next_place] at same
    have again := same ▸ Library.Linked.headD_mem
    simp only [nodup_cons, nodup_append, mem_append, mem_cons] at nodup again
    tauto
  have out : ∀ p ∉ ring,
      update s.nextShare (s.prevShare area) (s.nextShare area) p = s.nextShare p ∧
        update s.prevShare (s.nextShare area) (s.prevShare area) p = s.prevShare p := by
    refine fun p out => ⟨update_of_ne ?_ _ _, update_of_ne ?_ _ _⟩
    · exact fun same => out (listed p (same ▸ circ.prev_mem))
    · exact fun same => out (listed p (same ▸ circ.next_mem))
  have behind : update s.nextShare (s.prevShare area) (s.nextShare area) area =
      s.nextShare area := by
    rw [update_apply, ite_self]
  by_cases enters : s.iMmap (s.vma area).vmInode = area
  · rw [if_pos enters] at entry
    simp only [removeSharedVmStruct, pos, notAlone, enters, behind, if_true, if_false]
    exact ⟨⟨(update_self _ _ _).trans entry, circ.erase⟩, out,
      fun _ other => update_of_ne other _ _⟩
  · rw [if_neg enters] at entry
    simp only [removeSharedVmStruct, pos, notAlone, enters, behind, if_false]
    exact ⟨⟨entry, circ.erase⟩, out, fun _ _ => rfl⟩

lemma removeSharedVmStruct_rewired (isRing : s.Ring (s.vma area).vmInode ring)
    (pos : (s.vma area).vmInode ≠ 0) (mem : area ∈ ring) :
    s.Rewired (removeSharedVmStruct area s) (s.vma area).vmInode ring (ring.erase area) := by
  cases ring with
  | nil => cases mem
  | cons share rest =>
    obtain ⟨header, circ⟩ := isRing
    by_cases first : area = share
    · subst first
      rw [erase_cons_head]
      cases rest with
      | nil =>
        have alone := circ.linked.1
        simp only [removeSharedVmStruct, pos, alone, header, if_true, if_false]
        exact ⟨update_self _ _ _, fun _ _ => ⟨rfl, rfl⟩, fun _ other => update_of_ne other _ _⟩
      | cons second rest =>
        have rotated := circ.rotate
        have next := circ.linked.1
        have listed : ∀ p ∈ second :: (rest ++ [area]), p ∈ area :: second :: rest := by
          simp
          tauto
        have cut := removeSharedVmStruct_unlinks rotated pos listed
          (by rw [header, if_pos rfl, next])
        rwa [append_nil] at cut
    · obtain ⟨front, _, rfl⟩ := append_of_mem (mem_of_ne_of_mem first mem)
      have cut := removeSharedVmStruct_unlinks circ pos (fun _ => id)
        (by rw [header, if_neg (Ne.symm first)])
      have notBefore : area ∉ front := by
        have nodup := (nodup_cons.mp circ.nodup).2
        exact fun before => (nodup_middle.mp nodup).notMem (by simp [before])
      rwa [erase_cons_tail (by simpa using Ne.symm first), erase_append_right _ notBefore,
        erase_cons_head]

lemma Ringed.removeSharedVmStruct (ringed : s.Ringed inserted) (mem : area ∈ inserted) :
    (removeSharedVmStruct area s).Ringed (inserted.erase area) := by
  by_cases pos : (s.vma area).vmInode = 0
  · simp only [Mm.removeSharedVmStruct, pos, if_true]
    exact ringed.of_anonymous (by simp [ringed.notNull]) pos (by simp +contextual)
  obtain ⟨ring, isRing, listed⟩ := ringed.ring _ pos
  have inRing := (listed area).mpr ⟨mem, rfl⟩
  refine ringed.exchange (removeSharedVmStruct_rewired isRing pos inRing)
    removeSharedVmStruct_sameAreas.vma (by simp [ringed.notNull])
    (fun p touched => ((listed p).mp touched).2) (fun p => ?_) fun p apart => ?_
  · rw [isRing.nodup.mem_erase_iff, listed, Finset.mem_erase, and_assoc]
  rw [Finset.mem_erase, and_iff_right]
  rintro rfl
  exact apart rfl

inductive ShareStep : AddressSpace × Finset Nat → AddressSpace × Finset Nat → Prop
  | insert {s t : AddressSpace} {inserted : Finset Nat} {fuel vma : Nat} (fresh : vma ∉ inserted)
      (notNull : vma ≠ 0) (call : insertVmStruct fuel vma s = some t) :
      ShareStep (s, inserted) (t, insert vma inserted)
  | remove {s : AddressSpace} {inserted : Finset Nat} {mpnt : Nat} (member : mpnt ∈ inserted) :
      ShareStep (s, inserted) (removeSharedVmStruct mpnt s, inserted.erase mpnt)
  | other {s t : AddressSpace} {inserted : Finset Nat} (same : s.SameRings t inserted) :
      ShareStep (s, inserted) (t, inserted)

lemma ShareStep.ringed {before after : AddressSpace × Finset Nat} (step : ShareStep before after)
    (ringed : before.1.Ringed before.2) : after.1.Ringed after.2 := by
  cases step with
  | insert fresh ne0 call => exact ringed.insertVmStruct fresh ne0 call
  | remove mem => exact ringed.removeSharedVmStruct mem
  | other same => exact ringed.congr same

lemma ringed_of_steps {last : AddressSpace × Finset Nat} (start : ∀ inode, s.iMmap inode = 0)
    (steps : Relation.ReflTransGen ShareStep (s, ∅) last) : last.1.Ringed last.2 := by
  induction steps with
  | refl => exact ⟨by simp, fun inode _ => ⟨[], start inode, by simp⟩⟩
  | tail _ step ih => exact step.ringed ih

lemma Ring.null_iff (isRing : s.Ring inode ring) (ne0 : 0 ∉ ring) :
    s.iMmap inode = 0 ↔ ring = [] := by
  cases ring with
  | nil => exact iff_of_true isRing rfl
  | cons share rest =>
    have pos : share ≠ 0 := fun null => ne0 (null ▸ mem_cons_self)
    simp [isRing.1, pos]

/-- Every inode leads to exactly the inserted areas that map it, and no area is on the rings of
two inodes. -/
theorem iMmap_rings {last : AddressSpace × Finset Nat} (start : ∀ inode, s.iMmap inode = 0)
    (steps : Relation.ReflTransGen ShareStep (s, ∅) last) :
    ∃ ring : Nat → List Nat, (∀ inode, inode ≠ 0 → last.1.Ring inode (ring inode) ∧
        (∀ p, p ∈ ring inode ↔ p ∈ last.2 ∧ (last.1.vma p).vmInode = inode) ∧
        (last.1.iMmap inode = 0 ↔ ∀ p ∈ last.2, (last.1.vma p).vmInode ≠ inode)) ∧
      ∀ inode other, inode ≠ 0 → other ≠ 0 → inode ≠ other →
        (ring inode).Disjoint (ring other) := by
  have ringed := ringed_of_steps start steps
  choose ring isRing listed using ringed.ring
  refine ⟨fun inode => if positive : inode = 0 then [] else ring inode positive,
    fun inode positive => ?_, fun inode other positive positive' different p => ?_⟩
  · simp only [dif_neg positive]
    refine ⟨isRing inode positive, listed inode positive, ?_⟩
    rw [(isRing inode positive).null_iff fun null =>
      ringed.notNull ((listed inode positive 0).mp null).1]
    simp [eq_nil_iff_forall_not_mem, listed]
  · simp only [dif_neg positive, dif_neg positive', listed]
    exact fun mapsOne mapsOther => different (mapsOne.2.symm.trans mapsOther.2)

def unmapped : AddressSpace where
  mmap := 0
  avl := ⟨fun _ _ => 0, fun _ => 0, 0⟩
  next _ := 0
  nextShare _ := 0
  prevShare _ := 0
  vma p := ⟨0x1000 * p, 0x1000 * (p + 1), 0, 0, 0x1000 * p, 7, 0, 0⟩
  iMmap _ := 0
  iCount _ := 0
  operations _ := ⟨false, false, false⟩
  live := {1, 2}
  effects := []

theorem iMmap_rings_unmapped :
    ∃ t u ring, insertVmStruct 2 1 unmapped = some t ∧ insertVmStruct 2 2 t = some u ∧
      (removeSharedVmStruct 1 u).Ring 7 ring ∧
      ∀ p, p ∈ ring ↔ p ∈ (insert 2 (insert 1 (∅ : Finset Nat))).erase 1 ∧
        ((removeSharedVmStruct 1 u).vma p).vmInode = 7 := by
  obtain ⟨t, inserted⟩ : ∃ t, insertVmStruct 2 1 unmapped = some t := ⟨_, rfl⟩
  obtain ⟨u, again⟩ : ∃ u, (insertVmStruct 2 1 unmapped).bind (insertVmStruct 2 2) = some u :=
    ⟨_, rfl⟩
  rw [inserted, Option.bind_some] at again
  have steps : Relation.ReflTransGen ShareStep (unmapped, ∅) (u, insert 2 (insert 1 ∅)) :=
    (Relation.ReflTransGen.single (.insert (by simp) (by decide) inserted)).tail
      (.insert (by simp) (by decide) again)
  obtain ⟨ring, rings, -⟩ :=
    iMmap_rings (fun _ => rfl) (steps.tail (@ShareStep.remove u _ 1 (by simp)))
  exact ⟨t, u, ring 7, inserted, again, (rings 7 (by decide)).1, (rings 7 (by decide)).2.1⟩

end AddressSpace

end PrettyOS.Mm
