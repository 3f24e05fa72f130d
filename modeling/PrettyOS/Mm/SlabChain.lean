import PrettyOS.Library.Runs
import PrettyOS.Mm.SlabInvariant

/-!
Contract: the free chain of one slab over runs of `slab_get_obj` and `slab_free_obj`.
-/

namespace PrettyOS.Mm

open Lib List Function Nat
open Library
open Library.IndexChain (Linked Covers)

structure SlabRoom (cache : KmemCache) (args : Nat) : Prop where
  size : 0 < cache.objSize
  number : 1 ≤ cache.objNum
  span : cache.objSize * cache.objNum < 2 ^ 31
  fits : args + (cache.objNum + 1) * sizeofBufctl + cache.objSize * cache.objNum ≤ wordSize

structure FreeChain (cache : KmemCache) (slab : Slab) (live : List Nat) : Prop where
  chain : ∃ unused, Linked slab.bufctl bufctlEnd slab.free unused ∧ unused.Nodup ∧
    ∀ i, i ∈ unused ↔ i < cache.objNum ∧ indexToObj cache slab i ∉ live
  nodup : live.Nodup
  inuse : slab.inuse = live.length

structure Handing (cache : KmemCache) (slab : Slab) (live : List Nat) : Prop where
  size : 0 < cache.objSize
  span : cache.objSize * cache.objNum < 2 ^ 31
  start : 0 < slab.sMem
  fits : slab.sMem + cache.objSize * cache.objNum ≤ wordSize
  number : 1 ≤ cache.objNum
  covers : Covers slab.bufctl bufctlEnd slab.free (live.map (objToIndex cache slab)) cache.objNum
  object : ∀ objp ∈ live, indexToObj cache slab (objToIndex cache slab objp) = objp
  inuse : slab.inuse = live.length

namespace Handing

variable {cache other : KmemCache} {slab : Slab} {live : List Nat} {i objp : Nat}

lemma indexToObj_congr {other : Slab} (same : other.sMem = slab.sMem) :
    indexToObj cache other = indexToObj cache slab := by
  funext i
  rw [indexToObj, indexToObj, same]

section

variable (handing : Handing cache slab live)
include handing

lemma objNum_lt : cache.objNum < 2 ^ 31 :=
  (Nat.le_mul_of_pos_left _ handing.size).trans_lt handing.span

lemma sMem_lt : slab.sMem < wordSize := by
  have fits := handing.fits
  have some := mul_pos handing.size handing.number
  omega

lemma index (lt : i < cache.objNum) : objToIndex cache slab (indexToObj cache slab i) = i :=
  objToIndex_indexToObj handing.sMem_lt handing.size handing.span lt

lemma indexToObj_ne_zero (lt : i < cache.objNum) : indexToObj cache slab i ≠ 0 := by
  have inside : cache.objSize * (i + 1) ≤ cache.objSize * cache.objNum := mul_le_mul_left _ lt
  have fits := handing.fits
  have start := handing.start
  have size := handing.size
  rw [mul_succ] at inside
  rw [indexToObj, mod_eq_of_lt (by omega)]
  omega

lemma index_lt (mem : objp ∈ live) : objToIndex cache slab objp < cache.objNum :=
  handing.covers.used_lt (mem_map_of_mem mem)

lemma live_ne_zero (mem : objp ∈ live) : objp ≠ 0 := by
  rw [← handing.object objp mem]
  exact handing.indexToObj_ne_zero (handing.index_lt mem)

lemma freeChain : FreeChain cache slab live := by
  obtain ⟨unused, link, parts⟩ := handing.covers
  have nodup := parts.nodup_iff.mpr nodup_range
  have apart := disjoint_of_nodup_append nodup
  refine ⟨⟨unused, link, (nodup_append.mp nodup).1, fun i => ?_⟩, ?_, handing.inuse⟩
  · constructor
    · intro onChain
      have lt := mem_range.mp (parts.mem_iff.mp (mem_append_left _ onChain))
      refine ⟨lt, fun isLive => apart onChain ?_⟩
      exact mem_map.mpr ⟨indexToObj cache slab i, isLive, handing.index lt⟩
    rintro ⟨lt, notLive⟩
    have listed := parts.mem_iff.mpr (mem_range.mpr lt)
    rcases mem_append.mp listed with onChain | used
    · exact onChain
    obtain ⟨objp, isLive, rfl⟩ := mem_map.mp used
    rw [handing.object objp isLive] at notLive
    exact absurd isLive notLive
  · exact ((nodup_append.mp nodup).2.1).of_map

lemma of_shape (size : other.objSize = cache.objSize) (number : other.objNum = cache.objNum) :
    Handing other slab live := by
  have sameIndex : objToIndex other slab = objToIndex cache slab := by
    funext objp
    rw [objToIndex, objToIndex, size]
  have sameObj : indexToObj other slab = indexToObj cache slab := by
    funext i
    rw [indexToObj, indexToObj, size]
  refine ⟨?_, ?_, handing.start, ?_, ?_, ?_, ?_, handing.inuse⟩
  · rw [size]
    exact handing.size
  · rw [size, number]
    exact handing.span
  · rw [size, number]
    exact handing.fits
  · rw [number]
    exact handing.number
  · rw [number, sameIndex]
    exact handing.covers
  · rw [sameIndex, sameObj]
    exact handing.object

lemma take (unused : slab.free ≠ bufctlEnd) :
    indexToObj cache slab slab.free ∉ live ∧ indexToObj cache slab slab.free ≠ 0 ∧
      Handing cache slab.taken (indexToObj cache slab slab.free :: live) := by
  obtain ⟨lt, notUsed, covers⟩ := handing.covers.take unused
  have isIndex := handing.index lt
  have sameIndex : objToIndex cache slab.taken = objToIndex cache slab :=
    objToIndex_congr (taken_sMem slab)
  have sameObj : indexToObj cache slab.taken = indexToObj cache slab :=
    indexToObj_congr (taken_sMem slab)
  have cnt : slab.taken.inuse = slab.inuse + 1 := by
    apply mod_eq_of_lt
    have few := handing.covers.length_used_le
    have bound := handing.objNum_lt
    rw [length_map, ← handing.inuse] at few
    rw [wordSize]
    omega
  refine ⟨fun isLive => ?_, handing.indexToObj_ne_zero lt, ?_⟩
  · apply notUsed
    exact mem_map.mpr ⟨indexToObj cache slab slab.free, isLive, isIndex⟩
  refine ⟨handing.size, handing.span, ?_, ?_, handing.number, ?_, ?_, ?_⟩
  · rw [taken_sMem]
    exact handing.start
  · rw [taken_sMem]
    exact handing.fits
  · rw [sameIndex, map_cons, isIndex]
    exact covers
  · rw [sameIndex, sameObj, forall_mem_cons, isIndex]
    exact ⟨rfl, handing.object⟩
  · rw [cnt, handing.inuse, length_cons]

lemma give (mem : objp ∈ live) :
    Handing cache (slab.returned (objToIndex cache slab objp)) (live.erase objp) := by
  have sameIndex : objToIndex cache (slab.returned (objToIndex cache slab objp)) =
      objToIndex cache slab := objToIndex_congr (returned_sMem slab _)
  have sameObj : indexToObj cache (slab.returned (objToIndex cache slab objp)) =
      indexToObj cache slab := indexToObj_congr (returned_sMem slab _)
  have cnt : (slab.returned (objToIndex cache slab objp)).inuse = slab.inuse - 1 := by
    have used := handing.inuse ▸ length_pos_of_mem mem
    have few := handing.covers.length_used_le
    have bound := handing.objNum_lt
    rw [length_map, ← handing.inuse] at few
    simp only [Slab.returned, wordSize]
    omega
  refine ⟨handing.size, handing.span, ?_, ?_, handing.number, ?_, ?_, ?_⟩
  · rw [returned_sMem]
    exact handing.start
  · rw [returned_sMem]
    exact handing.fits
  · rw [sameIndex]
    apply handing.covers.give
    exact (perm_cons_erase mem).map (objToIndex cache slab)
  · rw [sameIndex, sameObj]
    intro other otherMem
    exact handing.object other (mem_of_mem_erase otherMem)
  · rw [cnt, handing.inuse, length_erase_of_mem mem]

end

end Handing

lemma handing_slabInit {cache : KmemCache} {args : Nat} (room : SlabRoom cache args)
    (slab : Slab) : Handing cache (slabInit cache slab args) [] := by
  have number := room.number
  have fits := room.fits
  have some := mul_pos room.size number
  have place : (slabInit cache slab args).sMem = args + (cache.objNum + 1) * sizeofBufctl := by
    simp only [slabInit]
    exact mod_eq_of_lt (by omega)
  refine ⟨room.size, room.span, ?_, ?_, number, covers_slabInit number slab args, ?_, ?_⟩
  · rw [place, sizeofBufctl]
    omega
  · rw [place]
    exact fits
  · exact forall_mem_nil _
  · simp [slabInit, one_le_iff_ne_zero.mp number]

inductive SlabCall where
  | get
  | free (objp : Nat)

structure SlabUse where
  kmem : Kmem
  live : List Nat

namespace SlabUse

def step (cachep slabp : Nat) : SlabCall → SlabUse → Option (Nat × SlabUse)
  | .get, u =>
      let (objp, kmem) := slabGetObj cachep slabp u.kmem
      some (objp, ⟨kmem, if objp = 0 then u.live else objp :: u.live⟩)
  | .free objp, u =>
      some (objp, ⟨(slabFreeObj cachep slabp objp u.kmem).2, u.live.erase objp⟩)

def Admits : SlabCall → SlabUse → Prop
  | .get, _ => True
  | .free objp, u => objp ∈ u.live

instance : (call : SlabCall) → (u : SlabUse) → Decidable (Admits call u)
  | .get, _ => .isTrue trivial
  | .free objp, u => inferInstanceAs (Decidable (objp ∈ u.live))

def fresh (cachep slabp args : Nat) (m : Kmem) : SlabUse :=
  ⟨m.setSlab slabp (slabInit (m.caches cachep) (m.slabs slabp) args), []⟩

def Chained (cachep slabp : Nat) (call : SlabCall) (u : SlabUse) (objp : Nat) (v : SlabUse) :
    Prop :=
  FreeChain (v.kmem.caches cachep) (v.kmem.slabs slabp) v.live ∧ (call = .get → objp ∉ u.live ∧
      (objp = 0 → u.live.length = (u.kmem.caches cachep).objNum))

section Run

variable {cachep slabp : Nat} {u : SlabUse}

def Good (cachep slabp : Nat) (u : SlabUse) : Prop :=
  Handing (u.kmem.caches cachep) (u.kmem.slabs slabp) u.live

section

variable (cacheNe : cachep ≠ 0) (slabNe : slabp ≠ 0) (good : Good cachep slabp u)
include cacheNe slabNe good

lemma good_get :
    ∃ objp v, step cachep slabp .get u = some (objp, v) ∧ Chained cachep slabp .get u objp v ∧
      Good cachep slabp v := by
  by_cases unused : (u.kmem.slabs slabp).free = bufctlEnd
  · -- the chain is at its end: nothing changes
    have beyond : (u.kmem.caches cachep).objNum ≤ bufctlEnd := by
      have bound := good.objNum_lt
      rw [bufctlEnd, wordSize]
      omega
    have all := good.covers.length_used_of_stop unused beyond
    rw [length_map] at all
    refine ⟨0, u, ?_, ⟨good.freeChain, fun _ => ⟨?_, fun _ => all⟩⟩, good⟩
    · rw [step, slabGetObj_exhausted unused]
      rfl
    · exact fun isLive => good.live_ne_zero isLive rfl
  obtain ⟨notLive, ne0, taken⟩ := good.take unused
  have ran := slabGetObj_eq cacheNe slabNe unused
  have next : Handing ((u.kmem.caches cachep).afterTake slabp (u.kmem.slabs slabp).taken.inuse)
      (u.kmem.slabs slabp).taken (indexToObj (u.kmem.caches cachep) (u.kmem.slabs slabp)
        (u.kmem.slabs slabp).free :: u.live) :=
    taken.of_shape (afterTake_objSize _ _ _) (afterTake_objNum _ _ _)
  refine ⟨_, _, by rw [step, ran], ⟨?_, fun _ => ⟨notLive, fun isNull => ?_⟩⟩, ?_⟩
  · simp only [if_neg ne0, Kmem.setCache_caches, Kmem.setCache_slabs, Kmem.setSlab_slabs,
      update_self]
    exact next.freeChain
  · exact absurd isNull ne0
  · simp only [Good, if_neg ne0, Kmem.setCache_caches, Kmem.setCache_slabs,
      Kmem.setSlab_slabs, update_self]
    exact next

lemma good_free {objp : Nat} (mem : objp ∈ u.live) :
    ∃ v, step cachep slabp (.free objp) u = some (objp, v) ∧
      Chained cachep slabp (.free objp) u objp v ∧ Good cachep slabp v := by
  have ran := slabFreeObj_eq cacheNe slabNe (good.live_ne_zero mem) rfl
    (good.index_lt mem).le
  have next := fun inuse => (good.give mem).of_shape
    (afterReturn_objSize (u.kmem.caches cachep) slabp inuse)
    (afterReturn_objNum (u.kmem.caches cachep) slabp inuse)
  refine ⟨_, by rw [step, ran], ⟨?_, nofun⟩, ?_⟩
  · simp only [Kmem.setCache_caches, Kmem.setCache_slabs, Kmem.setSlab_slabs, update_self]
    exact (next _).freeChain
  · simp only [Good, Kmem.setCache_caches, Kmem.setCache_slabs, Kmem.setSlab_slabs, update_self]
    exact next _

end

/-- Over every run of calls on a slab set up by `slab_init`, the free chain visits exactly the
objects that are not live, and no live object is handed out. -/
theorem slab_run_chained {args : Nat} {m : Kmem} (cacheNotNull : cachep ≠ 0)
    (slabNotNull : slabp ≠ 0) (room : SlabRoom (m.caches cachep) args) (calls : List SlabCall)
    (admitted : AtEach (step cachep slabp) Admits calls (fresh cachep slabp args m)) :
    let start := fresh cachep slabp args m
    FreeChain (start.kmem.caches cachep) (start.kmem.slabs slabp) start.live ∧
      ReturnsEach (step cachep slabp) (Chained cachep slabp) calls start := by
  have good : Good cachep slabp (fresh cachep slabp args m) := by
    have set := handing_slabInit room (m.slabs slabp)
    simp only [Good, fresh, Kmem.setSlab_slabs, Kmem.setSlab_caches, update_self]
    exact set
  refine ⟨good.freeChain, ?_⟩
  apply returnsEach_of_good _ good admitted
  intro call u isGood isAdmitted
  cases call with
  | get => exact good_get cacheNotNull slabNotNull isGood
  | free objp =>
    obtain ⟨v, isStep, chained, next⟩ := good_free cacheNotNull slabNotNull isGood isAdmitted
    exact ⟨objp, v, isStep, chained, next⟩

end Run

def pairOfObjects : Kmem :=
  (spareKmem 16).setCache 0x1000 { (spareKmem 16).caches 0x1000 with objNum := 2 }

/-- Both objects are handed out, the slab is found empty, one object comes back and is handed out
again. -/
theorem slab_run_chained_pair :
    AtEach (step 0x1000 0x1010000) Admits [.get, .get, .get, .free 0x1010020, .get]
        (fresh 0x1000 0x1010000 0x1010014 pairOfObjects) ∧
      ReturnsEach (step 0x1000 0x1010000) (Chained 0x1000 0x1010000)
        [.get, .get, .get, .free 0x1010020, .get]
        (fresh 0x1000 0x1010000 0x1010014 pairOfObjects) := by
  have admitted : AtEach (step 0x1000 0x1010000) Admits
      [.get, .get, .get, .free 0x1010020, .get]
      (fresh 0x1000 0x1010000 0x1010014 pairOfObjects) := by
    apply atEach_extend rfl trivial
    apply atEach_extend rfl trivial
    apply atEach_extend rfl trivial
    apply atEach_extend rfl (by decide)
    exact atEach_extend rfl trivial trivial
  have room : SlabRoom (pairOfObjects.caches 0x1000) 0x1010014 := by
    constructor <;> decide
  exact ⟨admitted, (slab_run_chained (by decide) (by decide) room _ admitted).2⟩

end SlabUse

end PrettyOS.Mm
