import PrettyOS.Mm.ZoneInvariant

/-!
Contract: the object caches of `mm/slab.c`.

Addresses are 32-bit values and `0` is the null pointer. A slab header and the
`unsigned int` array behind it are addressed by the page block they were placed
in. The rings of a cache hold slab addresses. Growing a cache takes pages from the
page allocator, whose unbounded scan may leave its array (`none`).
-/

namespace PrettyOS.Mm

open Lib Function
open Library.Tiling

def defaultSlabPages : Nat := 4

def maxSlabPages : Nat := 8

def bufctlEnd : Nat := wordSize - 1

def sizeofSlab : Nat := 20

def sizeofBufctl : Nat := 4

def sizeofKmemCache : Nat := 76

def toSigned (word : Nat) : Int :=
  if word < 2 ^ 31 then word else (word : Int) - wordSize

structure Slab where
  sMem : Nat
  free : Nat
  inuse : Nat
  bufctl : Nat → Nat

structure KmemCache where
  name : String
  flags : Nat
  nrFrees : Nat
  nrPages : Nat
  objSize : Nat
  objNum : Nat
  partialList : List Nat
  fullList : List Nat
  freeList : List Nat

structure Kmem where
  zone : Zone
  slabs : Nat → Slab
  caches : Nat → KmemCache
  cacheChain : List Nat

namespace Kmem

def setSlab (m : Kmem) (slabp : Nat) (slab : Slab) : Kmem :=
  { m with slabs := update m.slabs slabp slab }

def setCache (m : Kmem) (cachep : Nat) (cache : KmemCache) : Kmem :=
  { m with caches := update m.caches cachep cache }

variable (m : Kmem) (ptr : Nat) (slab : Slab) (cache : KmemCache)

@[simp] theorem setSlab_slabs : (m.setSlab ptr slab).slabs = update m.slabs ptr slab := rfl

@[simp] theorem setSlab_caches : (m.setSlab ptr slab).caches = m.caches := rfl

@[simp] theorem setSlab_zone : (m.setSlab ptr slab).zone = m.zone := rfl

@[simp] theorem setCache_slabs : (m.setCache ptr cache).slabs = m.slabs := rfl

@[simp] theorem setCache_caches :
    (m.setCache ptr cache).caches = update m.caches ptr cache := rfl

@[simp] theorem setCache_zone : (m.setCache ptr cache).zone = m.zone := rfl

lemma setSlab_self : m.setSlab ptr (m.slabs ptr) = m := by
  simp [setSlab]

lemma setCache_self : m.setCache ptr (m.caches ptr) = m := by
  simp [setCache]

end Kmem

def KmemCache.unlink (cache : KmemCache) (slabp : Nat) : KmemCache :=
  { cache with
    partialList := listDel slabp cache.partialList
    fullList := listDel slabp cache.fullList
    freeList := listDel slabp cache.freeList }

def objToIndex (cache : KmemCache) (slab : Slab) (objp : Nat) : Nat :=
  let distance := toSigned ((objp + wordSize - slab.sMem) % wordSize)
  ((distance.tdiv (toSigned cache.objSize)) % wordSize).toNat

def indexToObj (cache : KmemCache) (slab : Slab) (free : Nat) : Nat :=
  (slab.sMem + cache.objSize * free) % wordSize

def slabGetObj (cachep slabp : Nat) (m : Kmem) : Nat × Kmem :=
  if cachep = 0 ∨ slabp = 0 then
    (0, m)
  else
    let cache := m.caches cachep
    let slab := m.slabs slabp
    if slab.free = bufctlEnd then
      (0, m)
    else
      let objp := indexToObj cache slab slab.free
      let inuse := (slab.inuse + 1) % wordSize
      let taken := m.setSlab slabp { slab with inuse, free := slab.bufctl slab.free }
      if inuse = cache.objNum then
        let moved := cache.unlink slabp
        (objp, taken.setCache cachep
          { moved with fullList := listAddHead slabp moved.fullList })
      else
        (objp, taken)

def slabFreeObj (cachep slabp objp : Nat) (m : Kmem) : Int × Kmem :=
  if cachep = 0 ∨ slabp = 0 ∨ objp = 0 then
    (-1, m)
  else
    let cache := m.caches cachep
    let slab := m.slabs slabp
    let objnr := objToIndex cache slab objp
    if cache.objNum < objnr then
      (-2, m)
    else
      let inuse := (slab.inuse + wordSize - 1) % wordSize
      let freed := m.setSlab slabp
        { slab with bufctl := update slab.bufctl objnr slab.free, free := objnr, inuse }
      if inuse = 0 then
        let moved := cache.unlink slabp
        (0, freed.setCache cachep { moved with freeList := listAddHead slabp moved.freeList })
      else
        (0, freed)

section Objects

variable {cachep slabp objp : Nat} {m : Kmem}

def Slab.taken (slab : Slab) : Slab :=
  { slab with inuse := (slab.inuse + 1) % wordSize, free := slab.bufctl slab.free }

def Slab.returned (slab : Slab) (objnr : Nat) : Slab :=
  { slab with
    bufctl := update slab.bufctl objnr slab.free
    free := objnr
    inuse := (slab.inuse + wordSize - 1) % wordSize }

@[simp] theorem taken_sMem (slab : Slab) : slab.taken.sMem = slab.sMem := by
  simp only [Slab.taken]

@[simp] theorem returned_sMem (slab : Slab) (objnr : Nat) :
    (slab.returned objnr).sMem = slab.sMem := by
  simp only [Slab.returned]

def KmemCache.afterTake (cache : KmemCache) (slabp inuse : Nat) : KmemCache :=
  if inuse = cache.objNum then
    { cache.unlink slabp with fullList := listAddHead slabp (cache.unlink slabp).fullList }
  else cache

def KmemCache.afterReturn (cache : KmemCache) (slabp inuse : Nat) : KmemCache :=
  if inuse = 0 then
    { cache.unlink slabp with freeList := listAddHead slabp (cache.unlink slabp).freeList }
  else cache

section Shape

variable (cache : KmemCache) (slab inuse : Nat)

@[simp] theorem afterTake_objSize : (cache.afterTake slab inuse).objSize = cache.objSize := by
  unfold KmemCache.afterTake KmemCache.unlink
  split_ifs <;> rfl

@[simp] theorem afterTake_objNum : (cache.afterTake slab inuse).objNum = cache.objNum := by
  unfold KmemCache.afterTake KmemCache.unlink
  split_ifs <;> rfl

@[simp] theorem afterReturn_objSize : (cache.afterReturn slab inuse).objSize = cache.objSize := by
  unfold KmemCache.afterReturn KmemCache.unlink
  split_ifs <;> rfl

@[simp] theorem afterReturn_objNum : (cache.afterReturn slab inuse).objNum = cache.objNum := by
  unfold KmemCache.afterReturn KmemCache.unlink
  split_ifs <;> rfl

end Shape

lemma slabGetObj_exhausted (exhausted : (m.slabs slabp).free = bufctlEnd) :
    slabGetObj cachep slabp m = (0, m) := by
  simp [slabGetObj, exhausted]

lemma slabGetObj_eq (cacheNe : cachep ≠ 0) (slabNe : slabp ≠ 0)
    (unused : (m.slabs slabp).free ≠ bufctlEnd) :
    slabGetObj cachep slabp m = (indexToObj (m.caches cachep) (m.slabs slabp) (m.slabs slabp).free,
        (m.setSlab slabp (m.slabs slabp).taken).setCache cachep
          ((m.caches cachep).afterTake slabp (m.slabs slabp).taken.inuse)) := by
  have kept := Kmem.setCache_self (m.setSlab slabp (m.slabs slabp).taken) cachep
  by_cases full : (m.slabs slabp).taken.inuse = (m.caches cachep).objNum
  · rw [KmemCache.afterTake, if_pos full]
    simp only [Slab.taken] at full
    simp [slabGetObj, cacheNe, slabNe, unused, full, Slab.taken]
  rw [KmemCache.afterTake, if_neg full, ← Kmem.setSlab_caches m slabp, kept]
  simp only [Slab.taken] at full
  simp [slabGetObj, cacheNe, slabNe, unused, full, Slab.taken]

lemma slabFreeObj_eq {objnr : Nat} (cacheNe : cachep ≠ 0) (slabNe : slabp ≠ 0)
    (objNotNull : objp ≠ 0) (index : objToIndex (m.caches cachep) (m.slabs slabp) objp = objnr)
    (lt : objnr ≤ (m.caches cachep).objNum) :
    slabFreeObj cachep slabp objp m =
      (0, (m.setSlab slabp ((m.slabs slabp).returned objnr)).setCache cachep
        ((m.caches cachep).afterReturn slabp ((m.slabs slabp).returned objnr).inuse)) := by
  have kept := Kmem.setCache_self (m.setSlab slabp ((m.slabs slabp).returned objnr)) cachep
  by_cases idle : ((m.slabs slabp).returned objnr).inuse = 0
  · rw [KmemCache.afterReturn, if_pos idle]
    simp only [Slab.returned] at idle
    simp [slabFreeObj, cacheNe, slabNe, objNotNull, index, Nat.not_lt.mpr lt, idle, Slab.returned]
  rw [KmemCache.afterReturn, if_neg idle, ← Kmem.setSlab_caches m slabp, kept]
  simp only [Slab.returned] at idle
  simp [slabFreeObj, cacheNe, slabNe, objNotNull, index, Nat.not_lt.mpr lt, idle, Slab.returned]

end Objects

def slabAlloc (zone : Zone) : Option (Nat × Zone) :=
  (zone.getPages defaultSlabPages).map fun (exit, next) => (exit.value, next)

def slabEstimate (objSize : Nat) : Nat :=
  (power defaultSlabPages * pageSize - sizeofSlab) / objSize

def slabInit (cache : KmemCache) (slab : Slab) (args : Nat) : Slab where
  free := 0
  inuse := if cache.objNum = 0 then bufctlEnd else 0
  sMem := (args + (cache.objNum + 1) * sizeofBufctl) % wordSize
  bufctl i :=
    if i + 1 = cache.objNum then bufctlEnd
    else if i < cache.objNum then i + 1
    else slab.bufctl i

def kmemGetSlab (cachep : Nat) (m : Kmem) : Nat × Kmem :=
  if cachep = 0 then
    (0, m)
  else
    let cache := m.caches cachep
    if listEmptyCareful cache.partialList then
      match listGetHeadDel cache.freeList with
      | none => (0, m)
      | some (item, rest) =>
          let moved := { cache with
            freeList := rest
            partialList := listAddHead item cache.partialList }
          ((listGetTail moved.partialList).getD 0, m.setCache cachep moved)
    else
      ((listGetTail cache.partialList).getD 0, m)

section Choice

variable {cachep slabp : Nat} {front rest : List Nat} {m : Kmem}

lemma kmemGetSlab_partial (cacheNe : cachep ≠ 0)
    (ring : (m.caches cachep).partialList = front ++ [slabp]) :
    kmemGetSlab cachep m = (slabp, m) := by
  simp [kmemGetSlab, cacheNe, ring, listEmptyCareful, listGetTail]

lemma kmemGetSlab_free (cacheNe : cachep ≠ 0) (empty : (m.caches cachep).partialList = [])
    (ring : (m.caches cachep).freeList = slabp :: rest) :
    kmemGetSlab cachep m = (slabp, m.setCache cachep
      { m.caches cachep with freeList := rest, partialList := [slabp] }) := by
  simp [kmemGetSlab, cacheNe, empty, ring, listEmptyCareful, listGetTail, listGetHeadDel,
    listAddHead]

lemma kmemGetSlab_none (empty : (m.caches cachep).partialList = [])
    (noFree : (m.caches cachep).freeList = []) : kmemGetSlab cachep m = (0, m) := by
  simp [kmemGetSlab, empty, noFree, listEmptyCareful, listGetHeadDel]

end Choice

def kmemAddSlab (cachep slabp : Nat) (m : Kmem) : Int × Kmem :=
  if cachep = 0 ∨ slabp = 0 then
    (-1, m)
  else
    let cache := m.caches cachep
    (0, m.setCache cachep { cache with
      nrFrees := (cache.nrFrees + cache.objNum) % wordSize
      freeList := listAddTail slabp cache.freeList })

def cacheGrow (cachep : Nat) (m : Kmem) : Option (Int × Kmem) :=
  if cachep = 0 ∨ (m.caches cachep).objSize = 0 then
    some (-1, m)
  else
    match slabAlloc m.zone with
    | none => none
    | some (ptr, zone) =>
        let cache := { m.caches cachep with
          objNum := slabEstimate (m.caches cachep).objSize
          nrPages := ((m.caches cachep).nrPages + power defaultSlabPages) % wordSize }
        let estimated := { m with zone }.setCache cachep cache
        let prepared := estimated.setSlab ptr
          (slabInit cache (m.slabs ptr) ((ptr + sizeofSlab) % wordSize))
        some (0, (kmemAddSlab cachep ptr prepared).2)

structure Grant where
  obj : Nat
  slab : Nat
  grown : List Nat
deriving DecidableEq, Repr

def kmemGetObjRepeat (cachep : Nat) : (rounds : Nat) → Kmem → Option (Grant × Kmem)
  | 0, _ => none
  | rounds + 1, m =>
      let (slabp, chosen) := kmemGetSlab cachep m
      let (obj, taken) := slabGetObj cachep slabp chosen
      if obj = 0 then
        if power maxSlabPages ≤ (taken.caches cachep).nrPages then
          some (⟨0, slabp, []⟩, taken)
        else
          match slabAlloc taken.zone, cacheGrow cachep taken with
          | some (ptr, _), some (_, larger) =>
              (kmemGetObjRepeat cachep rounds larger).map fun (grant, last) =>
                ({ grant with grown := ptr :: grant.grown }, last)
          | _, _ => none
      else
        some (⟨obj, slabp, []⟩, taken)

def kmemGetObj (cachep : Nat) (m : Kmem) : Option (Grant × Kmem) :=
  kmemGetObjRepeat cachep 17 m

def objSlab (objp : Nat) : Nat :=
  objp &&& (wordSize - defaultSlabPages * pageSize)

def kmemFreeObj (cachep objp : Nat) (m : Kmem) : Int × Kmem :=
  if cachep = 0 ∨ objp = 0 then
    (-1, m)
  else
    slabFreeObj cachep (objSlab objp) objp m

def insertChain (caches : Nat → KmemCache) (cachep : Nat) : List Nat → List Nat
  | [] => []
  | pos :: rest =>
      if toSigned (caches cachep).objSize < toSigned (caches pos).objSize then
        cachep :: pos :: rest
      else if rest = [] then
        [pos, cachep]
      else
        pos :: insertChain caches cachep rest

def kmemChainAdd (cachep : Nat) (m : Kmem) : Int × Kmem :=
  if cachep = 0 then
    (-1, m)
  else if listEmptyCareful m.cacheChain then
    (-1, { m with cacheChain := listAddHead cachep m.cacheChain })
  else
    (0, { m with cacheChain := insertChain m.caches cachep m.cacheChain })

def kmemCacheAlloc (m : Kmem) : Option (Nat × Kmem) :=
  if pageSize < sizeofKmemCache then
    some (0, m)
  else
    (m.zone.getPages (sizeofKmemCache / pageSize)).map fun (exit, zone) =>
      (exit.value, { m with zone })

def newCache (name : String) (objSize flags : Nat) : KmemCache where
  name := (name.take 16).toString
  flags := flags
  nrFrees := 0
  nrPages := 0
  objSize := objSize
  objNum := 0
  partialList := []
  fullList := []
  freeList := []

def kmemCacheCreate (name : Option String) (objSize flags : Nat) (m : Kmem) :
    Option (Nat × Kmem) :=
  match name with
  | none => some (0, m)
  | some name =>
      if objSize = 0 then
        some (0, m)
      else
        match kmemCacheAlloc m with
        | none => none
        | some (ptr, allocated) =>
            if ptr = 0 then
              some (0, allocated)
            else
              match cacheGrow ptr (allocated.setCache ptr (newCache name objSize flags)) with
              | none => none
              | some (_, grown) => some (ptr, (kmemChainAdd ptr grown).2)

def initialCaches : List (String × Nat) :=
  [("tsk", 680), ("task_union", 8192), ("vma", 56), ("inode", 96), ("file", 32)]

def initKmemCaches : (position : Int) → List (String × Nat) → Kmem → Option (Int × Kmem)
  | _, [], m => some (0, m)
  | position, (name, size) :: rest, m =>
      match kmemCacheCreate (some name) size 0 m with
      | none => none
      | some (cachep, created) =>
          if cachep = 0 then
            some (-position, created)
          else
            initKmemCaches (position + 1) rest created

def initKmemCache (m : Kmem) : Option (Int × Kmem) :=
  initKmemCaches 1 initialCaches m

end PrettyOS.Mm
