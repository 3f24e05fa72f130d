import PrettyOS.Mm.Slab

/-!
Contract: where `cache_grow` places things in a slab, and which header
`kmem_free_obj` finds for an object.
-/

namespace PrettyOS.Mm

open Lib List Nat Option KmemCache

def slabBytes : Nat := power defaultSlabPages * pageSize

lemma slabBytes_eq : slabBytes = 65536 := by decide

lemma slabEstimate_eq (objSize : Nat) : slabEstimate objSize = 65516 / objSize := rfl

def objOffset (cache : KmemCache) (index : Nat) : Nat :=
  sizeofSlab + (cache.objNum + 1) * sizeofBufctl + cache.objSize * index

structure Prepared (cache : KmemCache) (slabp : Nat) (slab : Slab) : Prop where
  objNum : cache.objNum = slabEstimate cache.objSize
  sMem : slab.sMem = (slabp + objOffset cache 0) % wordSize
  inuse : slab.inuse < wordSize

section Placement

variable {cache : KmemCache} {slabp index : Nat} {slab : Slab}

section

variable (objNum : cache.objNum = slabEstimate cache.objSize)
include objNum

lemma objSize_mul_objNum_le : cache.objSize * cache.objNum ≤ 65516 := by
  rw [objNum, slabEstimate_eq]
  exact mul_div_le 65516 cache.objSize

lemma objSize_mul_le (lt : index < cache.objNum) :
    cache.objSize * index + cache.objSize ≤ 65516 := by
  rw [← mul_succ]
  exact (Nat.mul_le_mul_left _ lt).trans (objSize_mul_objNum_le objNum)

lemma objSize_pos (lt : index < cache.objNum) : 0 < cache.objSize := by
  rcases Nat.eq_zero_or_pos cache.objSize with zero | pos
  · rw [objNum, slabEstimate_eq, zero, Nat.div_zero] at lt
    exact absurd lt (Nat.not_lt_zero _)
  · exact pos

lemma objNum_le : cache.objNum ≤ 65516 := by
  rw [objNum, slabEstimate_eq]
  exact Nat.div_le_self _ _

lemma objOffset_lt (lt : index < cache.objNum) : objOffset cache index < 2 ^ 19 := by
  have size := objSize_mul_le objNum lt
  have number := objNum_le objNum
  rw [objOffset, sizeofSlab, sizeofBufctl]
  omega

end

lemma Prepared.indexToObj_eq (prep : Prepared cache slabp slab) :
    indexToObj cache slab index = (slabp + objOffset cache index) % wordSize := by
  rw [indexToObj, prep.sMem, mod_add_mod]
  congr 1
  rw [objOffset, objOffset]
  ring

lemma objToIndex_indexToObj (base : slab.sMem < wordSize) (pos : 0 < cache.objSize)
    (span : cache.objSize * cache.objNum < 2 ^ 31) (lt : index < cache.objNum) :
    objToIndex cache slab (indexToObj cache slab index) = index := by
  have size : cache.objSize * index + cache.objSize ≤ cache.objSize * cache.objNum := by
    rw [← mul_succ]
    exact Nat.mul_le_mul_left _ lt
  have number :=
    calc index < cache.objNum := lt
      _ ≤ cache.objSize * cache.objNum := Nat.le_mul_of_pos_left _ pos
      _ < 2 ^ 31 := span
  have distance : (indexToObj cache slab index + wordSize - slab.sMem) % wordSize =
      cache.objSize * index := by
    rw [indexToObj, wordSize] at *
    omega
  have signedDistance : toSigned (cache.objSize * index) = (cache.objSize * index : Nat) := by
    rw [toSigned, if_pos (by omega)]
  have signedSize : toSigned cache.objSize = (cache.objSize : Nat) := by
    rw [toSigned, if_pos (by omega)]
  have quotient : ((cache.objSize * index : Nat) : Int).tdiv (cache.objSize : Nat) = index := by
    rw [cast_mul, Int.mul_tdiv_cancel_left]
    exact_mod_cast pos.ne'
  have small : (index : Int) % wordSize = index := by
    apply Int.emod_eq_of_lt
    · exact Int.natCast_nonneg index
    · rw [wordSize]
      omega
  rw [objToIndex, distance, signedDistance, signedSize, quotient, small, Int.toNat_natCast]

lemma Prepared.objToIndex_indexToObj (prep : Prepared cache slabp slab)
    (lt : index < cache.objNum) : objToIndex cache slab (indexToObj cache slab index) = index := by
  apply Mm.objToIndex_indexToObj
  · rw [prep.sMem]
    exact mod_lt _ (by decide)
  · exact objSize_pos prep.objNum lt
  · exact (objSize_mul_objNum_le prep.objNum).trans_lt (by decide)
  · exact lt

end Placement

def KmemCache.grown (cache : KmemCache) (ptr : Nat) : KmemCache :=
  { cache with
    objNum := slabEstimate cache.objSize
    nrPages := (cache.nrPages + power defaultSlabPages) % wordSize
    nrFrees := (cache.nrFrees + slabEstimate cache.objSize) % wordSize
    freeList := ptr :: cache.freeList }

lemma cacheGrow_eq {cachep ptr : Nat} {m : Kmem} {zone : Zone} (cacheNe : cachep ≠ 0)
    (sized : (m.caches cachep).objSize ≠ 0) (pages : slabAlloc m.zone = some (ptr, zone))
    (ne0 : ptr ≠ 0) :
    cacheGrow cachep m = some (0, ({ m with zone }.setSlab ptr
      (slabInit ((m.caches cachep).grown ptr) (m.slabs ptr)
        ((ptr + sizeofSlab) % wordSize))).setCache cachep ((m.caches cachep).grown ptr)) := by
  simp [cacheGrow, cacheNe, sized, pages, kmemAddSlab, ne0, Kmem.setCache, Kmem.setSlab,
    listAddTail, slabInit, grown]
  rfl

lemma prepared_slabInit {cache : KmemCache} (slab : Slab) (slabp : Nat)
    (objNum : cache.objNum = slabEstimate cache.objSize) :
    Prepared cache slabp (slabInit cache slab ((slabp + sizeofSlab) % wordSize)) := by
  refine ⟨objNum, ?_, ?_⟩
  · simp only [slabInit, objOffset, mod_add_mod]
    congr 1
    ring
  · simp only [slabInit]
    split_ifs <;> decide

lemma prepared_cacheGrow {cachep ptr : Nat} {m grown : Kmem} {zone : Zone} {code : Int}
    (cacheNe : cachep ≠ 0) (sized : (m.caches cachep).objSize ≠ 0)
    (pages : slabAlloc m.zone = some (ptr, zone)) (ne0 : ptr ≠ 0)
    (grows : cacheGrow cachep m = some (code, grown)) :
    Prepared (grown.caches cachep) ptr (grown.slabs ptr) := by
  rw [cacheGrow_eq cacheNe sized pages ne0] at grows
  obtain ⟨-, rfl⟩ := Prod.mk.inj (some.inj grows)
  simp only [Kmem.setCache_caches, Kmem.setCache_slabs, Kmem.setSlab_slabs, Function.update_self]
  exact prepared_slabInit _ _ rfl

structure Region where
  start : Nat
  length : Nat
deriving DecidableEq, Repr

def Region.Apart (one other : Region) : Prop :=
  one.start + one.length ≤ other.start ∨ other.start + other.length ≤ one.start

def Region.Inside (inner outer : Region) : Prop :=
  outer.start ≤ inner.start ∧ inner.start + inner.length ≤ outer.start + outer.length

def slabRegions (cache : KmemCache) (slabp : Nat) (slab : Slab) : List Region :=
  ⟨slabp, sizeofSlab⟩ ::
    ((List.range cache.objNum).map
        (fun i => ⟨slabp + sizeofSlab + i * sizeofBufctl, sizeofBufctl⟩) ++
      (List.range cache.objNum).map (fun i => ⟨indexToObj cache slab i, cache.objSize⟩))

def SlabFits (cache : KmemCache) (slabp : Nat) (slab : Slab) : Prop :=
  (slabRegions cache slabp slab).Pairwise Region.Apart ∧
    ∀ region ∈ slabRegions cache slabp slab, region.Inside ⟨slabp, slabBytes⟩

section Layout

variable {cache : KmemCache} {slabp : Nat} {slab : Slab}

lemma pairwise_apart_progression (place : Nat → Nat) (base size : Nat) (count : Nat)
    (placed : ∀ i < count, place i = base + size * i) :
    ((List.range count).map fun i => (⟨place i, size⟩ : Region)).Pairwise Region.Apart := by
  rw [pairwise_map]
  refine List.Pairwise.imp_of_mem ?_ pairwise_lt_range
  intro low high lowMember highMember less
  left
  rw [mem_range] at lowMember highMember
  simp only [placed low lowMember, placed high highMember]
  have gap : size * (low + 1) ≤ size * high := Nat.mul_le_mul_left _ less
  rw [mul_succ] at gap
  omega

lemma objOffset_end_le_iff (objNum : cache.objNum = slabEstimate cache.objSize) :
    objOffset cache cache.objNum ≤ slabBytes ↔
      sizeofBufctl * (cache.objNum + 1) ≤ 65516 % cache.objSize := by
  have division := div_add_mod 65516 cache.objSize
  rw [← slabEstimate_eq, ← objNum] at division
  rw [objOffset, sizeofSlab, sizeofBufctl, slabBytes_eq]
  omega

section Fits

variable (ends : objOffset cache cache.objNum ≤ slabBytes)
include ends

lemma objOffset_add_objSize_le {i : Nat} (lt : i < cache.objNum) :
    objOffset cache i + cache.objSize ≤ slabBytes := by
  refine le_trans ?_ ends
  have grows : cache.objSize * (i + 1) ≤ cache.objSize * cache.objNum := Nat.mul_le_mul_left _ lt
  rw [mul_succ] at grows
  rw [objOffset, objOffset]
  omega

lemma Prepared.indexToObj_placed (prep : Prepared cache slabp slab)
    (below : slabp + slabBytes ≤ wordSize) {i : Nat} (lt : i < cache.objNum) :
    indexToObj cache slab i = slabp + objOffset cache 0 + cache.objSize * i := by
  have inSlab := objOffset_add_objSize_le ends lt
  have pos := objSize_pos prep.objNum lt
  rw [prep.indexToObj_eq, mod_eq_of_lt (by omega), objOffset, objOffset]
  ring

end Fits

lemma bufctl_end_le {i : Nat} (lt : i < cache.objNum) :
    sizeofSlab + i * sizeofBufctl + sizeofBufctl ≤ objOffset cache 0 := by
  rw [objOffset, sizeofBufctl]
  omega

lemma SlabFits.of_end_le (prep : Prepared cache slabp slab) (below : slabp + slabBytes ≤ wordSize)
    (ends : objOffset cache cache.objNum ≤ slabBytes) : SlabFits cache slabp slab := by
  have placed : ∀ i < cache.objNum,
      indexToObj cache slab i = slabp + objOffset cache 0 + cache.objSize * i :=
    fun i lt => prep.indexToObj_placed ends below lt
  have arrayPlaced : ∀ i < cache.objNum, slabp + sizeofSlab + i * sizeofBufctl =
      slabp + sizeofSlab + sizeofBufctl * i := by
    intro i _
    ring
  have header : sizeofSlab ≤ objOffset cache 0 := by
    rw [objOffset]
    omega
  constructor
  · rw [slabRegions, pairwise_cons, pairwise_append]
    refine ⟨?_, pairwise_apart_progression _ _ _ _ arrayPlaced,
      pairwise_apart_progression _ _ _ _ placed, ?_⟩
    · intro region mem
      left
      simp only [List.mem_append, List.mem_map, List.mem_range] at mem
      rcases mem with ⟨i, lt, rfl⟩ | ⟨i, lt, rfl⟩
      · dsimp only
        omega
      have far := placed i lt
      dsimp only
      omega
    · intro entry entryMember object objectMember
      left
      simp only [List.mem_map, List.mem_range] at entryMember objectMember
      obtain ⟨i, iInRange, rfl⟩ := entryMember
      obtain ⟨j, jInRange, rfl⟩ := objectMember
      have near := bufctl_end_le iInRange
      have far := placed j jInRange
      dsimp only
      omega
  · intro region mem
    simp only [slabRegions, List.mem_cons, List.mem_append, List.mem_map, List.mem_range] at mem
    rcases mem with rfl | ⟨i, lt, rfl⟩ | ⟨i, lt, rfl⟩
    · refine ⟨le_rfl, ?_⟩
      rw [slabBytes_eq]
      dsimp only
      rw [sizeofSlab]
      omega
    · have near := bufctl_end_le lt
      have inSlab := objOffset_add_objSize_le ends lt
      have monotone : objOffset cache 0 ≤ objOffset cache i := by
        rw [objOffset, objOffset]
        omega
      constructor <;> dsimp only <;> omega
    · have inSlab := objOffset_add_objSize_le ends lt
      have shift : objOffset cache i = objOffset cache 0 + cache.objSize * i := by
        rw [objOffset, objOffset]
        ring
      constructor <;> dsimp only <;> rw [placed i lt] <;> omega

lemma SlabFits.end_le (prep : Prepared cache slabp slab) (ne : 0 < cache.objNum)
    (placedBelow : slabp < wordSize) (fits : SlabFits cache slabp slab) :
    objOffset cache cache.objNum ≤ slabBytes := by
  obtain ⟨last, lastEq⟩ : ∃ last, cache.objNum = last + 1 := ⟨cache.objNum - 1, by omega⟩
  have mem : (⟨indexToObj cache slab last, cache.objSize⟩ : Region) ∈
      slabRegions cache slabp slab := by
    apply mem_cons_of_mem
    apply mem_append_right
    exact mem_map.mpr ⟨last, mem_range.mpr (by omega), rfl⟩
  obtain ⟨low, high⟩ := fits.2 _ mem
  dsimp only at low high
  have far := objOffset_lt prep.objNum (show last < cache.objNum by omega)
  -- a pointer that wrapped around would lie below the slab
  have noWrap : (slabp + objOffset cache last) % wordSize = slabp + objOffset cache last := by
    rw [prep.indexToObj_eq] at low
    rw [wordSize] at *
    omega
  rw [prep.indexToObj_eq, noWrap] at high
  have shift : objOffset cache cache.objNum = objOffset cache last + cache.objSize := by
    conv_lhs => rw [lastEq]
    rw [objOffset, objOffset]
    ring
  omega

end Layout

/-- A grown slab fits into its pages exactly for the object sizes whose estimate
leaves room for the index array. -/
theorem cacheGrow_slabFits_iff {cachep ptr : Nat} {m grown : Kmem} {zone : Zone} {code : Int}
    (cacheNotNull : cachep ≠ 0) (positive : 1 ≤ (m.caches cachep).objSize)
    (atMost : (m.caches cachep).objSize ≤ 65516)
    (pages : slabAlloc m.zone = some (ptr, zone)) (notNull : ptr ≠ 0)
    (below : ptr + slabBytes ≤ wordSize) (grows : cacheGrow cachep m = some (code, grown)) :
    SlabFits (grown.caches cachep) ptr (grown.slabs ptr) ↔
      sizeofBufctl * (65516 / (m.caches cachep).objSize + 1) ≤
        65516 % (m.caches cachep).objSize := by
  have sized : (m.caches cachep).objSize ≠ 0 := by omega
  have prepared := prepared_cacheGrow cacheNotNull sized pages notNull grows
  have size : (grown.caches cachep).objSize = (m.caches cachep).objSize := by
    rw [cacheGrow_eq cacheNotNull sized pages notNull] at grows
    obtain ⟨-, rfl⟩ := Prod.mk.inj (some.inj grows)
    simp [grown]
  have ends := objOffset_end_le_iff prepared.objNum
  rw [prepared.objNum, slabEstimate_eq, size] at ends
  rw [← ends, ← size, ← slabEstimate_eq, ← prepared.objNum]
  constructor
  · apply SlabFits.end_le prepared
    · rw [prepared.objNum, slabEstimate_eq, size]
      exact Nat.div_pos atMost positive
    · rw [slabBytes_eq] at below
      omega
  · exact SlabFits.of_end_le prepared below

def spareZone : Zone where
  buddy :=
    { pages := fun page => ⟨page * pageSize, sysRam⟩
      buddyList := fun order =>
        if order = 0 then ⟨[4096], 1⟩ else if order = 4 then ⟨[4112, 4128], 2⟩ else ⟨[], 0⟩ }
  outstanding := [⟨4097, 0⟩, ⟨4098, 1⟩, ⟨4100, 2⟩, ⟨4104, 3⟩]

def spareKmem (objSize : Nat) : Kmem where
  zone := spareZone
  slabs := fun _ => ⟨0, 0, 0, fun _ => 0⟩
  caches := fun _ => ⟨"", 0, 0, 0, objSize, 0, [], [], []⟩
  cacheChain := []

/-- Sixteen-page slabs of page-sized objects fit: fifteen objects and their index. -/
theorem cacheGrow_slabFits_pageObjects : ∃ code grown,
    cacheGrow 0x1000 (spareKmem 4096) = some (code, grown) ∧
      SlabFits (grown.caches 0x1000) 0x1010000 (grown.slabs 0x1010000) := by
  have pages := (some_get (show (slabAlloc spareZone).isSome from rfl)).symm
  have grows := (some_get (show (cacheGrow 0x1000 (spareKmem 4096)).isSome from rfl)).symm
  exact ⟨_, _, grows, (cacheGrow_slabFits_iff (by decide) (by decide) (by decide) pages
    (by decide) (by decide) grows).mpr (by decide)⟩

/-- The cache of `struct task_struct` (680 bytes): the last of its 96 objects ends 152
bytes behind the slab. -/
theorem cacheGrow_taskStruct_overruns : ∃ code grown,
    cacheGrow 0x1000 (spareKmem 680) = some (code, grown) ∧
      ⟨0x101FDF0, 680⟩ ∈ slabRegions (grown.caches 0x1000) 0x1010000 (grown.slabs 0x1010000) ∧
      ¬ SlabFits (grown.caches 0x1000) 0x1010000 (grown.slabs 0x1010000) := by
  have grows := (some_get (show (cacheGrow 0x1000 (spareKmem 680)).isSome from rfl)).symm
  have member : ⟨0x101FDF0, 680⟩ ∈ slabRegions
      (((cacheGrow 0x1000 (spareKmem 680)).get rfl).2.caches 0x1000) 0x1010000
      (((cacheGrow 0x1000 (spareKmem 680)).get rfl).2.slabs 0x1010000) := by decide
  refine ⟨_, _, grows, member, fun fits => ?_⟩
  have inside := fits.2 _ member
  exact absurd inside.2 (by decide)

lemma objSlab_eq {objp : Nat} (small : objp < wordSize) :
    objSlab objp = objp / 2 ^ 14 * 2 ^ 14 := by
  have mask : wordSize - defaultSlabPages * pageSize = (2 ^ 18 - 1) * 2 ^ 14 := by decide
  apply eq_of_testBit_eq
  intro bit
  rw [objSlab, mask, testBit_and, testBit_mul_two_pow, testBit_two_pow_sub_one,
    testBit_mul_two_pow, testBit_div_two_pow]
  by_cases low : 14 ≤ bit
  · by_cases high : bit < 32
    · have inMask : bit - 14 < 18 := by omega
      simp [low, inMask]
    have clear : objp.testBit bit = false := by
      apply testBit_lt_two_pow
      exact small.trans_le (Nat.pow_le_pow_right (by decide) (by omega))
    simp [low, clear]
  · simp [low]

lemma Prepared.objSlab_eq_iff {cache : KmemCache} {slabp index : Nat} {slab : Slab}
    (prep : Prepared cache slabp slab) (aligned : slabBytes ∣ slabp)
    (placed : slabp < wordSize) (lt : index < cache.objNum) :
    objSlab (indexToObj cache slab index) = slabp ↔
      objOffset cache index < defaultSlabPages * pageSize := by
  have near := objOffset_lt prep.objNum lt
  obtain ⟨_, rfl⟩ := aligned
  rw [prep.indexToObj_eq, objSlab_eq (mod_lt _ (by decide)), defaultSlabPages, pageSize]
  rw [slabBytes_eq] at *
  rw [wordSize] at *
  omega

structure Kmem.Serves (m : Kmem) (cachep slabp objSize : Nat) : Prop where
  size : (m.caches cachep).objSize = objSize
  prepared : Prepared (m.caches cachep) slabp (m.slabs slabp)

section Serves

variable {m next : Kmem} {cachep slabp other objSize obj : Nat}

section

variable (serves : m.Serves cachep slabp objSize)
include serves

lemma Kmem.Serves.of_shape (size : (next.caches cachep).objSize = (m.caches cachep).objSize)
    (number : (next.caches cachep).objNum = (m.caches cachep).objNum)
    (memory : (next.slabs slabp).sMem = (m.slabs slabp).sMem)
    (inuse : (next.slabs slabp).inuse < wordSize) : next.Serves cachep slabp objSize := by
  refine ⟨size.trans serves.size, ?_, ?_, inuse⟩
  · rw [number, size]
    exact serves.prepared.objNum
  · rw [memory, serves.prepared.sMem, objOffset, objOffset, number, size]

lemma Kmem.Serves.kmemGetSlab : (kmemGetSlab cachep m).2.Serves cachep slabp objSize := by
  simp only [Mm.kmemGetSlab]
  split_ifs
  · exact serves
  · split
    · exact serves
    · exact serves.of_shape (by simp) (by simp) rfl serves.prepared.inuse
  · exact serves

lemma Kmem.Serves.slabGetObj : (slabGetObj cachep other m).2.Serves cachep slabp objSize := by
  by_cases null : cachep = 0 ∨ other = 0
  · rw [Mm.slabGetObj, if_pos null]
    exact serves
  obtain ⟨cacheNe, slabNe⟩ := not_or.mp null
  by_cases exhausted : (m.slabs other).free = bufctlEnd
  · rw [slabGetObj_exhausted exhausted]
    exact serves
  rw [slabGetObj_eq cacheNe slabNe exhausted]
  by_cases chosen : slabp = other
  · subst chosen
    exact serves.of_shape (by simp) (by simp) (by simp [Slab.taken])
      (by simpa [Slab.taken] using mod_lt _ (by decide))
  · exact serves.of_shape (by simp) (by simp) (by simp [chosen])
      (by simpa [chosen] using serves.prepared.inuse)

lemma Kmem.Serves.cacheGrow {code : Int} (slabNe : slabp ≠ 0)
    (grows : cacheGrow cachep m = some (code, next)) : next.Serves cachep slabp objSize := by
  have inuse := serves.prepared.inuse
  have number := serves.prepared.objNum
  by_cases refused : cachep = 0 ∨ (m.caches cachep).objSize = 0
  · rw [Mm.cacheGrow, if_pos refused] at grows
    obtain ⟨-, rfl⟩ := Prod.mk.inj (some.inj grows)
    exact serves
  obtain ⟨cacheNe, sized⟩ := not_or.mp refused
  cases pages : slabAlloc m.zone with
  | none => simp [Mm.cacheGrow, refused, pages] at grows
  | some taken =>
    obtain ⟨ptr, zone⟩ := taken
    by_cases again : slabp = ptr
    · subst again
      have prep := prepared_cacheGrow cacheNe sized pages slabNe grows
      refine ⟨?_, prep⟩
      rw [cacheGrow_eq cacheNe sized pages slabNe] at grows
      obtain ⟨-, rfl⟩ := Prod.mk.inj (some.inj grows)
      simpa [grown] using serves.size
    · simp only [Mm.cacheGrow, if_neg refused, pages] at grows
      obtain ⟨-, rfl⟩ := Prod.mk.inj (some.inj grows)
      apply serves.of_shape <;> unfold kmemAddSlab <;> split_ifs <;>
        simp [number, inuse, again]

end

lemma kmemGetObjRepeat_last {rounds : Nat} {grant : Grant} (slabNe : slabp ≠ 0)
    (serves : m.Serves cachep slabp objSize)
    (ran : kmemGetObjRepeat cachep rounds m = some (grant, next)) (found : grant.obj ≠ 0) :
    ∃ before : Kmem, before.Serves cachep slabp objSize ∧
      slabGetObj cachep grant.slab before = (grant.obj, next) := by
  induction rounds generalizing m grant with
  | zero => cases ran
  | succ rounds ih =>
    simp only [kmemGetObjRepeat] at ran
    split_ifs at ran with null limit
    · obtain ⟨rfl, -⟩ := Prod.mk.inj (some.inj ran)
      exact absurd rfl found
    · split at ran
      · rename_i ptr zone code larger pages grows
        obtain ⟨⟨later, _⟩, laterReturns, same⟩ := map_eq_some_iff.mp ran
        obtain ⟨rfl, rfl⟩ := Prod.mk.inj same
        have largerServes := serves.kmemGetSlab.slabGetObj.cacheGrow slabNe grows
        have laterFound := found
        obtain ⟨before, beforeServes, takes⟩ := ih largerServes laterReturns laterFound
        exact ⟨before, beforeServes, takes⟩
      · cases ran
    · obtain ⟨rfl, rfl⟩ := Prod.mk.inj (some.inj ran)
      exact ⟨_, serves.kmemGetSlab, rfl⟩

lemma slabFreeObj_slabGetObj {index : Nat} (cacheNe : cachep ≠ 0) (slabNe : slabp ≠ 0)
    (objNotNull : obj ≠ 0) (serves : m.Serves cachep slabp objSize)
    (lt : index < (m.caches cachep).objNum)
    (object : obj = indexToObj (m.caches cachep) (m.slabs slabp) index)
    (takes : slabGetObj cachep slabp m = (obj, next)) :
    ((slabFreeObj cachep slabp obj next).2.slabs slabp).inuse = (m.slabs slabp).inuse ∧
      (slabGetObj cachep slabp (slabFreeObj cachep slabp obj next).2).1 = obj := by
  have inuse := serves.prepared.inuse
  have number := objNum_le serves.prepared.objNum
  have unused : (m.slabs slabp).free ≠ bufctlEnd := by
    intro exhausted
    rw [slabGetObj_exhausted exhausted] at takes
    exact objNotNull (Prod.mk.inj takes).1.symm
  rw [slabGetObj_eq cacheNe slabNe unused] at takes
  obtain ⟨-, rfl⟩ := Prod.mk.inj takes
  set got := (m.setSlab slabp (m.slabs slabp).taken).setCache cachep
    ((m.caches cachep).afterTake slabp (m.slabs slabp).taken.inuse) with gotDef
  have gotServes : got.Serves cachep slabp objSize := by
    rw [gotDef]
    exact serves.of_shape (by simp) (by simp) (by simp [Slab.taken])
      (by simpa [Slab.taken] using mod_lt _ (by decide))
  have gotInRange : index < (got.caches cachep).objNum := by simpa [gotDef] using lt
  have gotObject : obj = indexToObj (got.caches cachep) (got.slabs slabp) index := by
    simp [gotDef, object, indexToObj, Slab.taken]
  have found : objToIndex (got.caches cachep) (got.slabs slabp) obj = index := by
    rw [gotObject]
    exact gotServes.prepared.objToIndex_indexToObj gotInRange
  rw [slabFreeObj_eq cacheNe slabNe objNotNull found gotInRange.le]
  have indexNotEnd : index ≠ bufctlEnd := by
    rw [bufctlEnd, wordSize]
    omega
  constructor
  · simp only [gotDef, Kmem.setCache_slabs, Kmem.setSlab_slabs, Function.update_self,
      Slab.returned, Slab.taken]
    rw [wordSize] at *
    omega
  · rw [slabGetObj_eq cacheNe slabNe (by simpa [Slab.returned] using indexNotEnd)]
    simp [Slab.returned, indexToObj, object, gotDef, Slab.taken]

end Serves

def FreeReachesIssuer (cachep slabp objp : Nat) (m : Kmem) : Prop :=
  objSlab objp = slabp ∧ ∀ grant got, kmemGetObj cachep m = some (grant, got) → grant.slab = slabp →
      grant.obj = objp → ∃ before, slabGetObj cachep slabp before = (objp, got) ∧
        ((kmemFreeObj cachep objp got).2.slabs slabp).inuse = (before.slabs slabp).inuse ∧
        (slabGetObj cachep slabp (kmemFreeObj cachep objp got).2).1 = objp

/-- The mask covers `DEFAULT_SLAB_PAGES` pages while a slab has
`power(DEFAULT_SLAB_PAGES)`, so freeing works for the objects at its start only. -/
theorem freeReachesIssuer_iff {cachep slabp index : Nat} {m : Kmem} (cacheNotNull : cachep ≠ 0)
    (slabNotNull : slabp ≠ 0) (prepared : Prepared (m.caches cachep) slabp (m.slabs slabp))
    (aligned : slabBytes ∣ slabp) (placed : slabp < wordSize)
    (inRange : index < (m.caches cachep).objNum) :
    FreeReachesIssuer cachep slabp (indexToObj (m.caches cachep) (m.slabs slabp) index) m ↔
      objOffset (m.caches cachep) index < defaultSlabPages * pageSize := by
  rw [← prepared.objSlab_eq_iff aligned placed inRange]
  set objp := indexToObj (m.caches cachep) (m.slabs slabp) index with objpDef
  constructor
  · exact fun reaches => reaches.1
  intro header
  refine ⟨header, fun grant got returns fromSlab isObject => ?_⟩
  have objNotNull : objp ≠ 0 := by
    intro null
    rw [null] at header
    exact slabNotNull (header.symm.trans (zero_and _))
  obtain ⟨before, serves, takes⟩ := kmemGetObjRepeat_last slabNotNull ⟨rfl, prepared⟩ returns
    (by rwa [isObject])
  rw [fromSlab, isObject] at takes
  have number : (before.caches cachep).objNum = (m.caches cachep).objNum := by
    rw [serves.prepared.objNum, prepared.objNum, serves.size]
  have object : objp = indexToObj (before.caches cachep) (before.slabs slabp) index := by
    rw [objpDef, prepared.indexToObj_eq, serves.prepared.indexToObj_eq, objOffset, objOffset,
      number, serves.size]
  refine ⟨before, takes, ?_⟩
  rw [kmemFreeObj, if_neg (not_or.mpr ⟨cacheNotNull, objNotNull⟩), header]
  exact slabFreeObj_slabGetObj cacheNotNull slabNotNull objNotNull serves (by rwa [number])
    object takes

theorem freeReachesIssuer_firstPage : ∃ code grown,
    cacheGrow 0x1000 (spareKmem 4096) = some (code, grown) ∧ FreeReachesIssuer 0x1000 0x1010000
        (indexToObj (grown.caches 0x1000) (grown.slabs 0x1010000) 0) grown := by
  have pages := (some_get (show (slabAlloc spareZone).isSome from rfl)).symm
  have grows := (some_get (show (cacheGrow 0x1000 (spareKmem 4096)).isSome from rfl)).symm
  have prepared := prepared_cacheGrow (by decide) (by decide) pages (by decide) grows
  exact ⟨_, _, grows, (freeReachesIssuer_iff (by decide) (by decide) prepared (by decide)
    (by decide) (by decide)).mpr (by decide)⟩

def fifthObject (cachep : Nat) (m : Kmem) : Option (Grant × Kmem) := do
  let (_, one) ← kmemGetObj cachep m
  let (_, two) ← kmemGetObj cachep one
  let (_, three) ← kmemGetObj cachep two
  let (_, four) ← kmemGetObj cachep three
  kmemGetObj cachep four

/-- The fifth page-sized object of the slab at `0x1010000` is looked up at `0x1014000`,
in the middle of the fourth, and freeing it leaves the slab with five objects in use. -/
theorem fifthObject_misses_issuer : ∃ grant got,
    fifthObject 0x1000 (spareKmem 4096) = some (grant, got) ∧ grant.slab = 0x1010000 ∧
      objSlab grant.obj = 0x1014000 ∧ ¬ FreeReachesIssuer 0x1000 0x1010000 grant.obj got ∧
      ((kmemFreeObj 0x1000 grant.obj got).2.slabs 0x1010000).inuse = 5 := by
  have returns := (some_get (show (fifthObject 0x1000 (spareKmem 4096)).isSome from rfl)).symm
  refine ⟨_, _, returns, by decide, by decide, fun reaches => ?_, by decide⟩
  exact absurd reaches.1 (by decide)

end PrettyOS.Mm
