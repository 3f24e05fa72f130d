import PrettyOS.Library.IndexChain
import PrettyOS.Mm.SlabLayout

/-!
Contract: what one call of `kmem_get_obj` or `slab_free_obj` does to a cache.
-/

namespace PrettyOS.Mm

open Lib List Function Nat
open Library.Tiling
open Library.IndexChain

structure SlabInv (cache : KmemCache) (slabp : Nat) (slab : Slab) (live : List Nat) : Prop where
  prepared : Prepared cache slabp slab
  chain : ∃ unused, Linked slab.bufctl bufctlEnd slab.free unused ∧
    (unused ++ live.map (objToIndex cache slab)).Perm (List.range cache.objNum)
  inuse : slab.inuse = live.length
  notNull : ∀ objp ∈ live, objp ≠ 0

section OneSlab

variable {cache : KmemCache} {slabp objp : Nat} {slab : Slab} {live : List Nat}

lemma objToIndex_congr {other : Slab} (same : other.sMem = slab.sMem) :
    objToIndex cache other = objToIndex cache slab := by
  funext objp
  rw [objToIndex, objToIndex, same]

lemma objNum_lt_bufctlEnd (objNum : cache.objNum = slabEstimate cache.objSize) :
    cache.objNum < bufctlEnd := by
  have bound := objNum_le objNum
  rw [bufctlEnd, wordSize]
  omega

section

variable (inv : SlabInv cache slabp slab live)
include inv

lemma SlabInv.covers :
    Covers slab.bufctl bufctlEnd slab.free (live.map (objToIndex cache slab)) cache.objNum :=
  inv.chain

lemma SlabInv.inuse_le : slab.inuse ≤ cache.objNum := by
  rw [inv.inuse, ← length_map (objToIndex cache slab)]
  exact inv.covers.length_used_le

lemma SlabInv.index_lt (member : objp ∈ live) : objToIndex cache slab objp < cache.objNum :=
  inv.covers.used_lt (mem_map_of_mem member)

section

variable (room : slab.inuse < cache.objNum)
include room

lemma SlabInv.free_ne : slab.free ≠ bufctlEnd := by
  intro atEnd
  have all := inv.covers.length_used_of_stop atEnd (objNum_lt_bufctlEnd inv.prepared.objNum).le
  rw [length_map, ← inv.inuse] at all
  omega

lemma SlabInv.free_lt : slab.free < cache.objNum := (inv.covers.take (inv.free_ne room)).1

lemma SlabInv.take (ne0 : indexToObj cache slab slab.free ≠ 0) :
    SlabInv cache slabp slab.taken (indexToObj cache slab slab.free :: live) := by
  have bound := objNum_le inv.prepared.objNum
  have freeInRange := inv.free_lt room
  have cnt : slab.taken.inuse = slab.inuse + 1 := by
    apply mod_eq_of_lt
    rw [wordSize]
    omega
  refine ⟨⟨inv.prepared.objNum, ?_, ?_⟩, ?_, ?_, ?_⟩
  · rw [taken_sMem]
    exact inv.prepared.sMem
  · rw [cnt, wordSize]
    omega
  · have index := inv.prepared.objToIndex_indexToObj freeInRange
    have same : objToIndex cache slab.taken = objToIndex cache slab :=
      objToIndex_congr (taken_sMem slab)
    rw [same, map_cons, index]
    exact (inv.covers.take (inv.free_ne room)).2.2
  · rw [cnt, inv.inuse, length_cons]
  · intro objp member
    rcases mem_cons.mp member with rfl | old
    · exact ne0
    · exact inv.notNull objp old

end

lemma SlabInv.give (member : objp ∈ live) :
    SlabInv cache slabp (slab.returned (objToIndex cache slab objp)) (live.erase objp) := by
  have bound := inv.prepared.inuse
  have pos := length_pos_of_mem member
  have cnt : (slab.returned (objToIndex cache slab objp)).inuse = slab.inuse - 1 := by
    have used := inv.inuse
    rw [Slab.returned]
    dsimp only
    rw [wordSize] at *
    omega
  refine ⟨⟨inv.prepared.objNum, ?_, ?_⟩, ?_, ?_, ?_⟩
  · rw [returned_sMem]
    exact inv.prepared.sMem
  · rw [cnt]
    omega
  · have extracted : (live.map (objToIndex cache slab)).Perm
        (objToIndex cache slab objp :: (live.erase objp).map (objToIndex cache slab)) :=
      (perm_cons_erase member).map _
    have same : objToIndex cache (slab.returned (objToIndex cache slab objp)) =
        objToIndex cache slab := objToIndex_congr (returned_sMem slab _)
    rw [same]
    exact inv.covers.give extracted
  · rw [cnt, inv.inuse, length_erase_of_mem member]
  · intro other otherMem
    exact inv.notNull other (mem_of_mem_erase otherMem)

lemma SlabInv.of_shape {other : KmemCache} (size : other.objSize = cache.objSize)
    (number : other.objNum = cache.objNum) : SlabInv other slabp slab live := by
  have index : objToIndex other slab = objToIndex cache slab := by
    funext objp
    rw [objToIndex, objToIndex, size]
  refine ⟨⟨?_, ?_, inv.prepared.inuse⟩, ?_, inv.inuse, inv.notNull⟩
  · rw [number, size]
    exact inv.prepared.objNum
  · rw [inv.prepared.sMem, objOffset, objOffset, number, size]
  · rw [index, number]
    exact inv.chain

end

lemma covers_slabInit (ne : 0 < cache.objNum) (slab : Slab) (args : Nat) :
    Covers (slabInit cache slab args).bufctl bufctlEnd (slabInit cache slab args).free []
      cache.objNum := by
  apply covers_counting ne
  · intro entry notLast
    simp only [slabInit]
    rw [if_neg (by omega), if_pos (by omega)]
  intro entry isLast
  simp only [slabInit]
  rw [if_pos isLast]

lemma slabInv_slabInit (objNum : cache.objNum = slabEstimate cache.objSize)
    (ne : 0 < cache.objNum) (slab : Slab) :
    SlabInv cache slabp (slabInit cache slab ((slabp + sizeofSlab) % wordSize)) [] := by
  refine ⟨prepared_slabInit slab slabp objNum, ?_, ?_, ?_⟩
  · exact covers_slabInit ne slab _
  · simp [slabInit, ne.ne']
  · intro objp impossible
    cases impossible

end OneSlab

def KmemCache.rings (cache : KmemCache) : List Nat :=
  cache.partialList ++ cache.fullList ++ cache.freeList

structure Session where
  kmem : Kmem
  live : Nat → List Nat
  slabs : List Nat

namespace Session

abbrev cache (s : Session) (cachep : Nat) : KmemCache :=
  s.kmem.caches cachep

abbrev inuse (s : Session) (slabp : Nat) : Nat :=
  (s.kmem.slabs slabp).inuse

structure CacheInv (total cachep : Nat) (s : Session) : Prop where
  cacheNotNull : cachep ≠ 0
  zone : s.kmem.zone.Inv total
  bounded : total < 2 ^ 20
  size : 4 ≤ (s.cache cachep).objSize
  nonempty : 0 < (s.cache cachep).objNum
  estimate : (s.cache cachep).objNum = slabEstimate (s.cache cachep).objSize
  held : ∀ slabp ∈ s.slabs, ∃ page, slabp = page * pageSize ∧
    ⟨page, defaultSlabPages⟩ ∈ s.kmem.zone.outstanding
  rings : (s.cache cachep).rings.Perm s.slabs
  nodup : s.slabs.Nodup
  slab : ∀ slabp ∈ s.slabs, SlabInv (s.cache cachep) slabp (s.kmem.slabs slabp) (s.live slabp)
  idle : ∀ slabp, slabp ∉ s.slabs → s.live slabp = []
  partialRoom : ∀ slabp ∈ (s.cache cachep).partialList, s.inuse slabp < (s.cache cachep).objNum
  freeIdle : ∀ slabp ∈ (s.cache cachep).freeList, s.inuse slabp = 0

structure Sorted (cachep : Nat) (s : Session) : Prop where
  partialUsed : ∀ slabp ∈ (s.cache cachep).partialList, 0 < s.inuse slabp
  fullExact : ∀ slabp ∈ (s.cache cachep).fullList, s.inuse slabp = (s.cache cachep).objNum

end Session

section OneCache

variable {total cachep slabp : Nat} {s : Session}

open Session

section

variable (inv : s.CacheInv total cachep) (member : slabp ∈ s.slabs)
include inv member

lemma Session.CacheInv.slab_bounds : slabp ≠ 0 ∧ slabp + 2 ^ 17 ≤ wordSize := by
  obtain ⟨page, rfl, block⟩ := inv.held slabp member
  have bounds := inv.zone.tiles.start_bounds (mem_append_right _ block)
  have aligned : 2 ^ 4 ∣ page := inv.zone.heldAligned _ block
  have bounded := inv.bounded
  rw [firstFrame_eq, defaultSlabPages] at bounds
  dsimp only at bounds
  obtain ⟨_, rfl⟩ := aligned
  rw [pageSize, wordSize]
  omega

lemma Session.CacheInv.indexToObj_ne_zero {index : Nat} (lt : index < (s.cache cachep).objNum) :
    indexToObj (s.cache cachep) (s.kmem.slabs slabp) index ≠ 0 := by
  obtain ⟨_, _⟩ := inv.slab_bounds member
  have size := objSize_mul_le inv.estimate lt
  have array := (mul_le_mul_right _ inv.size).trans (objSize_mul_objNum_le inv.estimate)
  have large := inv.size
  rw [(inv.slab slabp member).prepared.indexToObj_eq, objOffset, sizeofSlab, sizeofBufctl]
  rw [wordSize] at *
  omega

end

lemma KmemCache.unlink_rings {cache : KmemCache} (nodup : cache.rings.Nodup) (slabp : Nat) :
    (cache.unlink slabp).rings = cache.rings.erase slabp := by
  obtain ⟨nodupFront, -, apartFree⟩ := nodup_append.mp nodup
  obtain ⟨-, -, apartFull⟩ := nodup_append.mp nodupFront
  unfold KmemCache.rings KmemCache.unlink listDel
  dsimp only
  rw [erase_append, erase_append]
  by_cases onPartial : slabp ∈ cache.partialList
  · have offFull : slabp ∉ cache.fullList := fun onFull =>
      apartFull slabp onPartial slabp onFull rfl
    have offFree : slabp ∉ cache.freeList := fun onFree =>
      apartFree slabp (mem_append_left _ onPartial) slabp onFree rfl
    rw [if_pos (mem_append_left _ onPartial), if_pos onPartial,
      erase_of_not_mem offFull, erase_of_not_mem offFree]
  rw [erase_of_not_mem onPartial]
  by_cases onFull : slabp ∈ cache.fullList
  · have offFree : slabp ∉ cache.freeList := fun onFree =>
      apartFree slabp (mem_append_right _ onFull) slabp onFree rfl
    rw [if_pos (mem_append_right _ onFull), if_neg onPartial, erase_of_not_mem offFree]
  have offFront : slabp ∉ cache.partialList ++ cache.fullList := by
    simp [onPartial, onFull]
  rw [if_neg offFront, erase_of_not_mem onFull]

lemma KmemCache.rings_fullList (cache : KmemCache) (slabp : Nat) :
    ({ cache with fullList := listAddHead slabp cache.fullList } : KmemCache).rings.Perm
      (slabp :: cache.rings) := by
  simp only [KmemCache.rings, listAddHead]
  rw [← append_assoc, append_assoc (cache.partialList ++ cache.fullList)]
  exact perm_middle

lemma KmemCache.rings_freeList (cache : KmemCache) (slabp : Nat) :
    ({ cache with freeList := listAddHead slabp cache.freeList } : KmemCache).rings.Perm
      (slabp :: cache.rings) := by
  simp only [KmemCache.rings, listAddHead]
  rw [← append_assoc]
  exact perm_append_singleton _ _

section

variable (inv : s.CacheInv total cachep)
include inv

lemma Session.CacheInv.mem_slabs : slabp ∈ s.slabs ↔ slabp ∈ (s.cache cachep).partialList ∨
      slabp ∈ (s.cache cachep).fullList ∨ slabp ∈ (s.cache cachep).freeList := by
  rw [← inv.rings.mem_iff, KmemCache.rings, mem_append, mem_append, or_assoc]

lemma Session.CacheInv.ringsNodup : (s.cache cachep).rings.Nodup :=
  inv.rings.nodup_iff.mpr inv.nodup

lemma Session.CacheInv.mem_unlink {other : Nat} :
    (other ∈ ((s.cache cachep).unlink slabp).partialList ↔
        other ≠ slabp ∧ other ∈ (s.cache cachep).partialList) ∧
      (other ∈ ((s.cache cachep).unlink slabp).fullList ↔
        other ≠ slabp ∧ other ∈ (s.cache cachep).fullList) ∧
      (other ∈ ((s.cache cachep).unlink slabp).freeList ↔
        other ≠ slabp ∧ other ∈ (s.cache cachep).freeList) := by
  obtain ⟨front, free, -⟩ := nodup_append.mp inv.ringsNodup
  obtain ⟨part, full, -⟩ := nodup_append.mp front
  exact ⟨part.mem_erase_iff, full.mem_erase_iff, free.mem_erase_iff⟩

lemma Session.CacheInv.relink (member : slabp ∈ s.slabs) :
    (slabp :: ((s.cache cachep).unlink slabp).rings).Perm s.slabs := by
  rw [KmemCache.unlink_rings inv.ringsNodup]
  exact (perm_cons_erase (inv.rings.mem_iff.mpr member)).symm.trans inv.rings

end

def Session.replace (s : Session) (cachep slabp : Nat) (cache : KmemCache) (slab : Slab)
    (live : List Nat) : Session where
  kmem := (s.kmem.setSlab slabp slab).setCache cachep cache
  live := update s.live slabp live
  slabs := s.slabs

lemma Session.replace_inuse {cache : KmemCache} {slab : Slab} {live : List Nat} (other : Nat) :
    (s.replace cachep slabp cache slab live).inuse other =
      if other = slabp then slab.inuse else s.inuse other := by
  by_cases same : other = slabp
  · subst same
    simp [Session.replace, Session.inuse]
  · simp [Session.replace, Session.inuse, same]

lemma Session.CacheInv.replace (inv : s.CacheInv total cachep) (member : slabp ∈ s.slabs)
    {cache : KmemCache} {slab : Slab} {live : List Nat}
    (size : cache.objSize = (s.cache cachep).objSize)
    (number : cache.objNum = (s.cache cachep).objNum) (rings : cache.rings.Perm s.slabs)
    (slabInv : SlabInv (s.cache cachep) slabp slab live)
    (partialRoom : ∀ other ∈ cache.partialList,
      (if other = slabp then slab.inuse else s.inuse other) < (s.cache cachep).objNum)
    (freeIdle : ∀ other ∈ cache.freeList,
      (if other = slabp then slab.inuse else s.inuse other) = 0) :
    (s.replace cachep slabp cache slab live).CacheInv total cachep := by
  have after : (s.replace cachep slabp cache slab live).cache cachep = cache := by
    simp [Session.replace, Session.cache]
  constructor
  · exact inv.cacheNotNull
  · exact inv.zone
  · exact inv.bounded
  · rw [after, size]
    exact inv.size
  · rw [after, number]
    exact inv.nonempty
  · rw [after, number, size]
    exact inv.estimate
  · exact inv.held
  · rw [after]
    exact rings
  · exact inv.nodup
  · intro other otherMem
    rw [after]
    by_cases same : other = slabp
    · subst same
      simpa [Session.replace] using slabInv.of_shape size number
    · simpa [Session.replace, same] using (inv.slab other otherMem).of_shape size number
  · intro other absent
    have ne : other ≠ slabp := fun same => absent (same ▸ member)
    simpa [Session.replace, ne] using inv.idle other absent
  · intro other otherMem
    rw [after] at otherMem ⊢
    rw [Session.replace_inuse, number]
    exact partialRoom other otherMem
  · intro other otherMem
    rw [after] at otherMem
    rw [Session.replace_inuse]
    exact freeIdle other otherMem

def Session.take (s : Session) (cachep slabp : Nat) : Session where
  kmem := (slabGetObj cachep slabp s.kmem).2
  live := update s.live slabp ((slabGetObj cachep slabp s.kmem).1 :: s.live slabp)
  slabs := s.slabs

section

variable (inv : s.CacheInv total cachep) (member : slabp ∈ s.slabs)
include inv member

lemma Session.CacheInv.taken_inuse : (s.kmem.slabs slabp).taken.inuse = s.inuse slabp + 1 := by
  have number := objNum_le inv.estimate
  have used := (inv.slab slabp member).inuse_le
  rw [Slab.taken]
  dsimp only
  rw [wordSize, mod_eq_of_lt]
  omega

lemma Session.CacheInv.slabGetObj_eq (room : s.inuse slabp < (s.cache cachep).objNum) :
    slabGetObj cachep slabp s.kmem =
      (indexToObj (s.cache cachep) (s.kmem.slabs slabp) (s.kmem.slabs slabp).free,
        (s.kmem.setSlab slabp (s.kmem.slabs slabp).taken).setCache cachep
          ((s.cache cachep).afterTake slabp (s.inuse slabp + 1))) := by
  have lt := (inv.slab slabp member).free_lt room
  have unused : (s.kmem.slabs slabp).free ≠ bufctlEnd := by
    have below := objNum_lt_bufctlEnd inv.estimate
    omega
  rw [Mm.slabGetObj_eq inv.cacheNotNull (inv.slab_bounds member).1 unused, inv.taken_inuse member]

lemma Session.CacheInv.take_eq (room : s.inuse slabp < (s.cache cachep).objNum) :
    s.take cachep slabp = s.replace cachep slabp
      ((s.cache cachep).afterTake slabp (s.inuse slabp + 1)) (s.kmem.slabs slabp).taken
      (indexToObj (s.cache cachep) (s.kmem.slabs slabp) (s.kmem.slabs slabp).free ::
        s.live slabp) := by
  rw [Session.take, inv.slabGetObj_eq member room, Session.replace]

end

section

variable (inv : s.CacheInv total cachep) (onPartial : slabp ∈ (s.cache cachep).partialList)
include inv onPartial

lemma Session.CacheInv.slabGetObj_ne_zero : (slabGetObj cachep slabp s.kmem).1 ≠ 0 := by
  have member := inv.mem_slabs.mpr (.inl onPartial)
  have room := inv.partialRoom slabp onPartial
  rw [inv.slabGetObj_eq member room]
  exact inv.indexToObj_ne_zero member ((inv.slab slabp member).free_lt room)

lemma Session.CacheInv.take : (s.take cachep slabp).CacheInv total cachep := by
  have member := inv.mem_slabs.mpr (.inl onPartial)
  have room := inv.partialRoom slabp onPartial
  have slabInv := inv.slab slabp member
  have ne0 := inv.indexToObj_ne_zero member (slabInv.free_lt room)
  rw [inv.take_eq member room]
  apply inv.replace member
  · exact afterTake_objSize _ _ _
  · exact afterTake_objNum _ _ _
  · rw [KmemCache.afterTake]
    split_ifs
    · exact (KmemCache.rings_fullList _ _).trans (inv.relink member)
    · exact inv.rings
  · exact slabInv.take room ne0
  · intro other otherMem
    rw [inv.taken_inuse member]
    rw [KmemCache.afterTake] at otherMem
    split_ifs at otherMem with filled
    · obtain ⟨ne, old⟩ := inv.mem_unlink.1.mp otherMem
      rw [if_neg ne]
      exact inv.partialRoom other old
    split_ifs with same
    · omega
    · exact inv.partialRoom other otherMem
  · intro other otherMem
    have old : other ≠ slabp ∧ other ∈ (s.cache cachep).freeList := by
      rw [KmemCache.afterTake] at otherMem
      split_ifs at otherMem with filled
      · exact inv.mem_unlink.2.2.mp otherMem
      refine ⟨?_, otherMem⟩
      rintro rfl
      have apart := (nodup_append.mp inv.ringsNodup).2.2
      exact apart other (mem_append_left _ onPartial) other otherMem rfl
    rw [if_neg old.1]
    exact inv.freeIdle other old.2

lemma Session.CacheInv.notMem_fullList : slabp ∉ (s.cache cachep).fullList := by
  intro onFull
  have front := (nodup_append.mp inv.ringsNodup).1
  exact (nodup_append.mp front).2.2 slabp onPartial slabp onFull rfl

lemma Session.CacheInv.take_sorted
    (othersUsed : ∀ other ∈ (s.cache cachep).partialList, other ≠ slabp → 0 < s.inuse other)
    (fullExact : ∀ other ∈ (s.cache cachep).fullList, s.inuse other = (s.cache cachep).objNum) :
    (s.take cachep slabp).Sorted cachep := by
  have member := inv.mem_slabs.mpr (.inl onPartial)
  have room := inv.partialRoom slabp onPartial
  have after : (s.take cachep slabp).cache cachep =
      (s.cache cachep).afterTake slabp (s.inuse slabp + 1) := by
    rw [inv.take_eq member room]
    simp [Session.replace, Session.cache]
  have uses : ∀ other, (s.take cachep slabp).inuse other =
      if other = slabp then s.inuse slabp + 1 else s.inuse other := by
    intro other
    rw [inv.take_eq member room, Session.replace_inuse, inv.taken_inuse member]
  constructor
  · intro other otherMem
    rw [uses]
    split_ifs with same
    · omega
    rw [after, KmemCache.afterTake] at otherMem
    split_ifs at otherMem with filled
    · exact othersUsed other (inv.mem_unlink.1.mp otherMem).2 same
    · exact othersUsed other otherMem same
  · intro other otherMem
    rw [uses, after, afterTake_objNum]
    rw [after, KmemCache.afterTake] at otherMem
    split_ifs at otherMem with filled
    · rcases mem_append.mp otherMem with old | new
      · obtain ⟨ne, onFull⟩ := inv.mem_unlink.2.1.mp old
        rw [if_neg ne]
        exact fullExact other onFull
      · rw [if_pos (mem_singleton.mp new)]
        exact filled
    · have ne : other ≠ slabp := by
        rintro rfl
        exact inv.notMem_fullList onPartial otherMem
      rw [if_neg ne]
      exact fullExact other otherMem

end

lemma Session.CacheInv.choose (inv : s.CacheInv total cachep)
    (room : (s.cache cachep).partialList ≠ [] ∨ (s.cache cachep).freeList ≠ []) :
    ∃ slabp next, kmemGetSlab cachep s.kmem = (slabp, next) ∧
      CacheInv total cachep { s with kmem := next } ∧
      slabp ∈ (next.caches cachep).partialList ∧
      (s.Sorted cachep → (∀ other ∈ (next.caches cachep).partialList, other ≠ slabp →
          0 < (next.slabs other).inuse) ∧
        ∀ other ∈ (next.caches cachep).fullList,
          (next.slabs other).inuse = (next.caches cachep).objNum) := by
  rcases eq_nil_or_concat (s.cache cachep).partialList with empty | ⟨_, slabp, ring⟩
  · obtain ⟨slabp, rest, ring⟩ := exists_cons_of_ne_nil (room.resolve_left (· empty))
    have onFree : slabp ∈ (s.cache cachep).freeList := by
      rw [ring]
      exact mem_cons_self
    have member := inv.mem_slabs.mpr (.inr (.inr onFree))
    refine ⟨slabp, _, kmemGetSlab_free inv.cacheNotNull empty ring, ?_, by simp, ?_⟩
    · have moved : s.replace cachep slabp
          { s.cache cachep with freeList := rest, partialList := [slabp] }
          (s.kmem.slabs slabp) (s.live slabp) = { s with
            kmem := s.kmem.setCache cachep
              { s.cache cachep with freeList := rest, partialList := [slabp] } } := by
        simp [Session.replace, Kmem.setSlab_self]
      rw [← moved]
      refine inv.replace member ?_ ?_ ?_ (inv.slab slabp member) ?_ ?_
      · rfl
      · rfl
      · refine List.Perm.trans ?_ inv.rings
        simp only [KmemCache.rings, empty, ring, nil_append, singleton_append]
        exact perm_middle.symm
      · intro other otherMem
        rw [if_pos (mem_singleton.mp otherMem)]
        exact (inv.freeIdle slabp onFree).trans_lt inv.nonempty
      · intro other otherMem
        have onRing : other ∈ (s.cache cachep).freeList := by
          rw [ring]
          exact mem_cons_of_mem _ otherMem
        split_ifs with same
        · exact inv.freeIdle slabp onFree
        · exact inv.freeIdle other onRing
    · intro sorted
      refine ⟨fun other otherMem ne => ?_, fun other otherMem => ?_⟩
      · simp at otherMem
        exact absurd otherMem ne
      · simp only [Kmem.setCache_caches, update_self] at otherMem ⊢
        exact sorted.fullExact other otherMem
  · rw [concat_eq_append] at ring
    refine ⟨slabp, s.kmem, kmemGetSlab_partial inv.cacheNotNull ring, inv, ?_, ?_⟩
    · change slabp ∈ (s.cache cachep).partialList
      rw [ring]
      exact mem_append_right _ mem_cons_self
    · intro sorted
      exact ⟨fun other otherMem _ => sorted.partialUsed other otherMem, sorted.fullExact⟩

lemma slabAlloc_spec {z zone : Zone} {ptr : Nat} (inv : z.Inv total)
    (pages : slabAlloc z = some (ptr, zone)) :
    ∃ page, ptr = page * pageSize ∧ ptr ≠ 0 ∧ zone.Inv total ∧
      zone.outstanding = ⟨page, defaultSlabPages⟩ :: z.outstanding ∧
      ⟨page, defaultSlabPages⟩ ∉ z.outstanding := by
  have lt : defaultSlabPages < nrMemLists := by decide
  obtain ⟨⟨_, _⟩, ran, same⟩ := Option.map_eq_some_iff.mp pages
  obtain ⟨page, _, res, after, -⟩ := inv.getPages lt (Zone.available_of_getPages inv.counted lt ran)
  rw [res] at ran
  obtain ⟨rfl, rfl⟩ := Prod.mk.inj (Option.some.inj ran)
  obtain ⟨rfl, rfl⟩ := Prod.mk.inj same
  have bounds := after.tiles.start_bounds (mem_append_right _ mem_cons_self)
  rw [firstFrame_eq] at bounds
  have pos : 0 < page := lt_of_lt_of_le (by decide) bounds.1
  have ne0 : page * pageSize ≠ 0 := mul_ne_zero pos.ne' (by decide)
  exact ⟨page, rfl, ne0, after, rfl, after.fresh⟩

structure Session.Adopts (s : Session) (cachep slabp : Nat) (next : Kmem) : Prop where
  cache : next.caches cachep = (s.cache cachep).grown slabp
  added : SlabInv (next.caches cachep) slabp (next.slabs slabp) []
  kept : ∀ other ∈ s.slabs, next.slabs other = s.kmem.slabs other

section Adopts

variable {next : Kmem} (inv : s.CacheInv total cachep) (adopts : s.Adopts cachep slabp next)
include inv adopts

lemma Session.CacheInv.adopted_objNum :
    (next.caches cachep).objNum = (s.cache cachep).objNum := by
  rw [adopts.cache]
  exact inv.estimate.symm

lemma Session.CacheInv.adopted_inuse {other : Nat}
    (member : other ∈ (s.cache cachep).partialList ∨ other ∈ (s.cache cachep).fullList ∨
      other ∈ (s.cache cachep).freeList) :
    (next.slabs other).inuse = s.inuse other := by
  rw [adopts.kept other (inv.mem_slabs.mpr member)]

lemma Session.CacheInv.adopt {page : Nat} (isPage : slabp = page * pageSize)
    (zone : next.zone.Inv total)
    (held : next.zone.outstanding = ⟨page, defaultSlabPages⟩ :: s.kmem.zone.outstanding)
    (absent : slabp ∉ s.slabs) : CacheInv total cachep ⟨next, s.live, slabp :: s.slabs⟩ := by
  have number := inv.adopted_objNum adopts
  have size : (next.caches cachep).objSize = (s.cache cachep).objSize := by
    rw [adopts.cache, KmemCache.grown]
  refine ⟨inv.cacheNotNull, zone, inv.bounded, size ▸ inv.size, number ▸ inv.nonempty, ?_, ?_, ?_,
    nodup_cons.mpr ⟨absent, inv.nodup⟩, ?_, ?_, ?_, ?_⟩
  · change (next.caches cachep).objNum = slabEstimate (next.caches cachep).objSize
    rw [number, size]
    exact inv.estimate
  · intro other member
    change ∃ page, other = page * pageSize ∧ ⟨page, defaultSlabPages⟩ ∈ next.zone.outstanding
    rw [held]
    rcases mem_cons.mp member with rfl | old
    · exact ⟨page, isPage, mem_cons_self⟩
    · obtain ⟨page, same, block⟩ := inv.held other old
      exact ⟨page, same, mem_cons_of_mem _ block⟩
  · change (next.caches cachep).rings.Perm _
    rw [adopts.cache]
    exact perm_middle.trans (inv.rings.cons _)
  · intro other member
    change SlabInv (next.caches cachep) other (next.slabs other) (s.live other)
    rcases mem_cons.mp member with rfl | old
    · rw [inv.idle _ absent]
      exact adopts.added
    · rw [adopts.kept other old]
      exact (inv.slab other old).of_shape size number
  · intro other notMember
    exact inv.idle other fun member => notMember (mem_cons_of_mem _ member)
  · intro other onPartial
    change (next.slabs other).inuse < (next.caches cachep).objNum
    change other ∈ (next.caches cachep).partialList at onPartial
    rw [adopts.cache] at onPartial
    rw [inv.adopted_inuse adopts (.inl onPartial), number]
    exact inv.partialRoom other onPartial
  · intro other onFree
    change (next.slabs other).inuse = 0
    change other ∈ (next.caches cachep).freeList at onFree
    rw [adopts.cache] at onFree
    rcases mem_cons.mp onFree with rfl | old
    · exact adopts.added.inuse
    · rw [inv.adopted_inuse adopts (.inr (.inr old))]
      exact inv.freeIdle other old

lemma Session.CacheInv.adopt_sorted (sorted : s.Sorted cachep) :
    Sorted cachep ⟨next, s.live, slabp :: s.slabs⟩ := by
  refine ⟨fun other onPartial => ?_, fun other onFull => ?_⟩
  · change 0 < (next.slabs other).inuse
    change other ∈ (next.caches cachep).partialList at onPartial
    rw [adopts.cache] at onPartial
    rw [inv.adopted_inuse adopts (.inl onPartial)]
    exact sorted.partialUsed other onPartial
  change (next.slabs other).inuse = (next.caches cachep).objNum
  change other ∈ (next.caches cachep).fullList at onFull
  rw [adopts.cache] at onFull
  rw [inv.adopted_inuse adopts (.inr (.inl onFull)), inv.adopted_objNum adopts]
  exact sorted.fullExact other onFull

end Adopts

lemma Session.CacheInv.grow (inv : s.CacheInv total cachep) {ptr : Nat} {zone : Zone}
    (pages : slabAlloc s.kmem.zone = some (ptr, zone)) :
    ∃ next, cacheGrow cachep s.kmem = some (0, next) ∧
      CacheInv total cachep ⟨next, s.live, ptr :: s.slabs⟩ ∧
      (s.Sorted cachep → Sorted cachep ⟨next, s.live, ptr :: s.slabs⟩) ∧
      (next.caches cachep).freeList ≠ [] := by
  obtain ⟨page, rfl, ne0, zoneInv, held, fresh⟩ := slabAlloc_spec inv.zone pages
  have sized : (s.kmem.caches cachep).objSize ≠ 0 := by
    have size := inv.size
    exact (lt_of_lt_of_le (by decide) size).ne'
  have absent : page * pageSize ∉ s.slabs := by
    intro member
    obtain ⟨other, same, block⟩ := inv.held _ member
    rw [eq_of_mul_eq_mul_right (by decide) same] at fresh
    exact fresh block
  refine ⟨_, cacheGrow_eq inv.cacheNotNull sized pages ne0, ?_⟩
  set next := ({ s.kmem with zone }.setSlab (page * pageSize)
    (slabInit ((s.kmem.caches cachep).grown (page * pageSize)) (s.kmem.slabs (page * pageSize))
      ((page * pageSize + sizeofSlab) % wordSize))).setCache cachep
      ((s.kmem.caches cachep).grown (page * pageSize)) with nextDef
  have adopts : s.Adopts cachep (page * pageSize) next := by
    refine ⟨by simp [nextDef], ?_, ?_⟩
    · have prep := @slabInv_slabInit ((s.cache cachep).grown (page * pageSize))
        (page * pageSize) rfl (inv.nonempty.trans_eq inv.estimate) (s.kmem.slabs (page * pageSize))
      simpa [nextDef] using prep
    intro other member
    have ne : other ≠ page * pageSize := by
      rintro rfl
      exact absent member
    simp [nextDef, ne]
  refine ⟨inv.adopt adopts rfl zoneInv held absent, inv.adopt_sorted adopts, ?_⟩
  rw [adopts.cache]
  exact cons_ne_nil _ _

def Session.granted (s : Session) (grant : Grant) (next : Kmem) : Session where
  kmem := next
  live :=
    if grant.obj = 0 then s.live
    else update s.live grant.slab (grant.obj :: s.live grant.slab)
  slabs := grant.grown.reverse ++ s.slabs

section

variable (inv : s.CacheInv total cachep)
include inv

lemma Session.CacheInv.get_of_room (rounds : Nat)
    (room : (s.cache cachep).partialList ≠ [] ∨ (s.cache cachep).freeList ≠ []) :
    ∃ obj slabp next, kmemGetObjRepeat cachep (rounds + 1) s.kmem = some (⟨obj, slabp, []⟩, next) ∧
      obj ≠ 0 ∧ CacheInv total cachep (s.granted ⟨obj, slabp, []⟩ next) ∧
      (s.Sorted cachep → Sorted cachep (s.granted ⟨obj, slabp, []⟩ next)) := by
  obtain ⟨slabp, chosen, choice, chosenInv, onPartial, used⟩ := inv.choose room
  have ne0 : (slabGetObj cachep slabp chosen).1 ≠ 0 := chosenInv.slabGetObj_ne_zero onPartial
  have res : s.granted ⟨(slabGetObj cachep slabp chosen).1, slabp, []⟩
      (slabGetObj cachep slabp chosen).2 =
        Session.take { s with kmem := chosen } cachep slabp := by
    simp [Session.granted, Session.take, ne0]
  refine ⟨_, slabp, (slabGetObj cachep slabp chosen).2, ?_, ne0, ?_, ?_⟩
  · simp [kmemGetObjRepeat, choice, ne0]
  · rw [res]
    exact chosenInv.take onPartial
  intro sorted
  rw [res]
  exact chosenInv.take_sorted onPartial (used sorted).1 (used sorted).2

lemma Session.CacheInv.get_result :
    (slabAlloc s.kmem.zone = none ∧ kmemGetObj cachep s.kmem = none) ∨
      ∃ grant next, kmemGetObj cachep s.kmem = some (grant, next) ∧ grant.grown.length ≤ 1 ∧
        CacheInv total cachep (s.granted grant next) ∧
        (s.Sorted cachep → Sorted cachep (s.granted grant next)) := by
  by_cases room : (s.cache cachep).partialList ≠ [] ∨ (s.cache cachep).freeList ≠ []
  · obtain ⟨obj, slabp, last, res, -, after⟩ := inv.get_of_room 16 room
    exact .inr ⟨_, last, res, by simp, after⟩
  obtain ⟨noPartial, noFree⟩ := not_or.mp room
  have none := kmemGetSlab_none (not_not.mp noPartial) (not_not.mp noFree)
  have nothing : slabGetObj cachep 0 s.kmem = (0, s.kmem) := by simp [slabGetObj]
  rw [kmemGetObj, kmemGetObjRepeat]
  simp only [none, nothing, ↓reduceIte]
  split_ifs with limit
  · have same : s.granted ⟨0, 0, []⟩ s.kmem = s := by simp [Session.granted]
    refine .inr ⟨_, _, rfl, by simp, ?_⟩
    rw [same]
    exact ⟨inv, id⟩
  cases pages : slabAlloc s.kmem.zone with
  | none => simp
  | some taken =>
    obtain ⟨ptr, zone⟩ := taken
    obtain ⟨larger, grows, largerInv, largerSorted, free⟩ := inv.grow pages
    obtain ⟨obj, slabp, last, res, -, after, sorted⟩ := largerInv.get_of_room 15 (.inr free)
    have same : s.granted ⟨obj, slabp, [ptr]⟩ last =
        Session.granted ⟨larger, s.live, ptr :: s.slabs⟩ ⟨obj, slabp, []⟩ last := by
      simp [Session.granted]
    refine .inr ⟨⟨obj, slabp, [ptr]⟩, last, ?_, by simp, ?_⟩
    · simp [grows, res]
    · rw [same]
      exact ⟨after, fun initially => sorted (largerSorted initially)⟩

lemma Session.CacheInv.get {grant : Grant} {next : Kmem}
    (ran : kmemGetObj cachep s.kmem = some (grant, next)) :
    CacheInv total cachep (s.granted grant next) ∧
      (s.Sorted cachep → Sorted cachep (s.granted grant next)) := by
  rcases inv.get_result with ⟨-, none⟩ | ⟨grant, next, res, -, after⟩
  · simp [none] at ran
  · obtain ⟨rfl, rfl⟩ := Prod.mk.inj (Option.some.inj (res.symm.trans ran))
    exact after

end

def Session.give (s : Session) (cachep slabp objp : Nat) : Session where
  kmem := (slabFreeObj cachep slabp objp s.kmem).2
  live := update s.live slabp ((s.live slabp).erase objp)
  slabs := s.slabs

variable {objp : Nat}

section

variable (inv : s.CacheInv total cachep) (isLive : objp ∈ s.live slabp)
include inv isLive

lemma Session.CacheInv.mem_of_live : slabp ∈ s.slabs := by
  by_contra absent
  rw [inv.idle slabp absent] at isLive
  cases isLive

lemma Session.CacheInv.returned_inuse :
    0 < s.inuse slabp ∧ ((s.kmem.slabs slabp).returned
        (objToIndex (s.cache cachep) (s.kmem.slabs slabp) objp)).inuse = s.inuse slabp - 1 := by
  have slabInv := inv.slab slabp (inv.mem_of_live isLive)
  have pos := length_pos_of_mem isLive
  rw [(slabInv.give isLive).inuse, length_erase_of_mem isLive]
  rw [← slabInv.inuse] at pos ⊢
  exact ⟨pos, rfl⟩

lemma Session.CacheInv.give_eq :
    s.give cachep slabp objp = s.replace cachep slabp
      ((s.cache cachep).afterReturn slabp (s.inuse slabp - 1))
      ((s.kmem.slabs slabp).returned (objToIndex (s.cache cachep) (s.kmem.slabs slabp) objp))
      ((s.live slabp).erase objp) := by
  have member := inv.mem_of_live isLive
  have slabInv := inv.slab slabp member
  rw [Session.give, slabFreeObj_eq inv.cacheNotNull (inv.slab_bounds member).1
    (slabInv.notNull objp isLive) rfl (slabInv.index_lt isLive).le,
    (inv.returned_inuse isLive).2, Session.replace]

lemma Session.CacheInv.give : (s.give cachep slabp objp).CacheInv total cachep := by
  have member := inv.mem_of_live isLive
  have slabInv := inv.slab slabp member
  obtain ⟨_, cnt⟩ := inv.returned_inuse isLive
  rw [inv.give_eq isLive]
  apply inv.replace member
  · exact afterReturn_objSize _ _ _
  · exact afterReturn_objNum _ _ _
  · rw [KmemCache.afterReturn]
    split_ifs
    · exact (KmemCache.rings_freeList _ _).trans (inv.relink member)
    · exact inv.rings
  · exact slabInv.give isLive
  · intro other otherMem
    rw [cnt]
    rw [KmemCache.afterReturn] at otherMem
    split_ifs at otherMem with drained
    · obtain ⟨ne, old⟩ := inv.mem_unlink.1.mp otherMem
      rw [if_neg ne]
      exact inv.partialRoom other old
    have room := inv.partialRoom other otherMem
    split_ifs with same
    · subst same
      omega
    · exact room
  · intro other otherMem
    rw [cnt]
    rw [KmemCache.afterReturn] at otherMem
    split_ifs at otherMem with drained
    · rcases mem_append.mp otherMem with old | new
      · obtain ⟨ne, onFree⟩ := inv.mem_unlink.2.2.mp old
        rw [if_neg ne]
        exact inv.freeIdle other onFree
      · rw [if_pos (mem_singleton.mp new)]
        exact drained
    · have unused := inv.freeIdle other otherMem
      split_ifs with same
      · subst same
        omega
      · exact unused

lemma Session.CacheInv.give_sorted (sorted : s.Sorted cachep)
    (roomy : s.inuse slabp ≠ (s.cache cachep).objNum ∨ (s.cache cachep).objNum = 1) :
    (s.give cachep slabp objp).Sorted cachep := by
  obtain ⟨_, cnt⟩ := inv.returned_inuse isLive
  have after : (s.give cachep slabp objp).cache cachep =
      (s.cache cachep).afterReturn slabp (s.inuse slabp - 1) := by
    rw [inv.give_eq isLive]
    simp [Session.replace, Session.cache]
  have uses : ∀ other, (s.give cachep slabp objp).inuse other =
      if other = slabp then s.inuse slabp - 1 else s.inuse other := by
    intro other
    rw [inv.give_eq isLive, Session.replace_inuse, cnt]
  constructor
  · intro other otherMem
    rw [uses]
    rw [after, KmemCache.afterReturn] at otherMem
    split_ifs at otherMem with drained
    · obtain ⟨ne, old⟩ := inv.mem_unlink.1.mp otherMem
      rw [if_neg ne]
      exact sorted.partialUsed other old
    have used := sorted.partialUsed other otherMem
    split_ifs with same
    · omega
    · exact used
  · intro other otherMem
    rw [uses, after, afterReturn_objNum]
    rw [after, KmemCache.afterReturn] at otherMem
    split_ifs at otherMem with drained
    · obtain ⟨ne, old⟩ := inv.mem_unlink.2.1.mp otherMem
      rw [if_neg ne]
      exact sorted.fullExact other old
    have full := sorted.fullExact other otherMem
    split_ifs with same
    · subst same
      omega
    · exact full

end

end OneCache

end PrettyOS.Mm
