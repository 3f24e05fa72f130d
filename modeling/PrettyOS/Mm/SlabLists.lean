import PrettyOS.Mm.SlabInvariant

/-!
Contract: which ring of its cache a slab is on, over runs of `kmem_get_obj` and
`slab_free_obj` from `kmem_cache_create` on.

`slab_free_obj` moves a slab to the free ring when its last object returns and does
nothing else. A full slab that gets an object back therefore stays on the full ring;
the classification holds along the runs that avoid this.
-/

namespace PrettyOS.Mm

open Lib List Option Prod
open Library.Tiling

section Creation

variable {total cachep objSize flags : Nat} {name : String} {start m : Kmem}

open Session

def Session.opened (cachep : Nat) (m : Kmem) : Session where
  kmem := m
  live := fun _ => []
  slabs := (m.caches cachep).freeList

lemma kmemChainAdd_eq (cachep : Nat) (m : Kmem) :
    ∃ chain, (kmemChainAdd cachep m).2 = { m with cacheChain := chain } := by
  unfold kmemChainAdd
  split_ifs
  · exact ⟨m.cacheChain, rfl⟩
  · exact ⟨_, rfl⟩
  · exact ⟨_, rfl⟩

lemma Session.CacheInv.setChain {s : Session} (inv : s.CacheInv total cachep) (chain : List Nat) :
    CacheInv total cachep { s with kmem := { s.kmem with cacheChain := chain } } :=
  ⟨inv.cacheNotNull, inv.zone, inv.bounded, inv.size, inv.nonempty, inv.estimate, inv.held,
    inv.rings, inv.nodup, inv.slab, inv.idle, inv.partialRoom, inv.freeIdle⟩

lemma cacheInv_empty {cache : KmemCache} (cacheNe : cachep ≠ 0) (zoneInv : m.zone.Inv total)
    (bounded : total < 2 ^ 20) (size : 4 ≤ cache.objSize) (atMost : cache.objSize ≤ 65516)
    (number : cache.objNum = slabEstimate cache.objSize) (rings : cache.rings = []) :
    CacheInv total cachep ⟨m.setCache cachep cache, fun _ => [], []⟩ := by
  have noSlab : ∀ slabp, slabp ∉ cache.rings := by
    intro slabp
    rw [rings]
    exact not_mem_nil
  have after : (m.setCache cachep cache).caches cachep = cache := by simp
  constructor
  · exact cacheNe
  · exact zoneInv
  · exact bounded
  · simpa [Session.cache] using size
  · simp only [Session.cache, after, number, slabEstimate_eq]
    exact Nat.div_pos atMost (by omega)
  · simpa [Session.cache] using number
  · intro slabp mem
    cases mem
  · simp [Session.cache, rings]
  · exact nodup_nil
  · intro slabp mem
    cases mem
  · intro slabp _
    rfl
  · intro slabp mem
    rw [Session.cache, after] at mem
    exact absurd (mem_append_left _ (mem_append_left _ mem)) (noSlab slabp)
  · intro slabp mem
    rw [Session.cache, after] at mem
    exact absurd (mem_append_right _ mem) (noSlab slabp)

lemma kmemCacheAlloc_spec {ptr : Nat} (zoneInv : start.zone.Inv total)
    (ran : kmemCacheAlloc start = some (ptr, m)) :
    ptr ≠ 0 ∧ ∃ zone : Zone, zone.Inv total ∧ m = { start with zone } := by
  have lt : sizeofKmemCache / pageSize < nrMemLists := by decide
  have onePage : ¬ pageSize < sizeofKmemCache := by decide
  rw [kmemCacheAlloc, if_neg onePage] at ran
  obtain ⟨⟨_, zone⟩, got, same⟩ := map_eq_some_iff.mp ran
  obtain ⟨page, _, taken, after, -⟩ :=
    zoneInv.getPages lt (Zone.available_of_getPages zoneInv.counted lt got)
  rw [taken] at got
  obtain ⟨rfl, rfl⟩ := mk.inj (some.inj got)
  obtain ⟨rfl, rfl⟩ := mk.inj same
  have bounds := after.tiles.start_bounds (mem_append_right _ mem_cons_self)
  have pos : 0 < page := lt_of_lt_of_le (by decide) bounds.1
  exact ⟨Nat.mul_ne_zero pos.ne' (by decide), _, after, rfl⟩

lemma kmemCacheCreate_spec (zoneInv : start.zone.Inv total) (sized : objSize ≠ 0)
    (created : kmemCacheCreate (some name) objSize flags start = some (cachep, m)) :
    cachep ≠ 0 ∧ ∃ zone code grown chain, zone.Inv total ∧
      cacheGrow cachep ({ start with zone }.setCache cachep (newCache name objSize flags)) =
        some (code, grown) ∧ m = { grown with cacheChain := chain } := by
  rw [kmemCacheCreate, if_neg sized] at created
  cases ran : kmemCacheAlloc start with
  | none => simp [ran] at created
  | some res =>
    obtain ⟨ptr, _⟩ := res
    obtain ⟨ne0, zone, after, rfl⟩ := kmemCacheAlloc_spec zoneInv ran
    simp only [ran, if_neg ne0] at created
    split at created
    · cases created
    rename_i code grown grows
    obtain ⟨rfl, rfl⟩ := mk.inj (some.inj created)
    obtain ⟨chain, link⟩ := kmemChainAdd_eq ptr grown
    exact ⟨ne0, _, code, grown, chain, after, grows, link⟩

lemma kmemCacheCreate_inv (zoneInv : start.zone.Inv total) (bounded : total < 2 ^ 20)
    (size : 4 ≤ objSize) (atMost : objSize ≤ 65516)
    (created : kmemCacheCreate (some name) objSize flags start = some (cachep, m)) :
    (opened cachep m).CacheInv total cachep ∧ (opened cachep m).Sorted cachep := by
  obtain ⟨cacheNe, zone, _, grown, chain, after, grows, rfl⟩ :=
    kmemCacheCreate_spec zoneInv (by omega) created
  -- the growth does not read the object count it is about to set
  set estimated : KmemCache :=
    { newCache name objSize flags with objNum := slabEstimate objSize } with estimatedDef
  have empty : CacheInv total cachep
      ⟨{ start with zone }.setCache cachep estimated, fun _ => [], []⟩ :=
    cacheInv_empty cacheNe after bounded size atMost rfl rfl
  cases pages : slabAlloc zone with
  | none => simp [cacheGrow, cacheNe, newCache, show objSize ≠ 0 by omega, pages] at grows
  | some taken =>
    obtain ⟨_, _⟩ := taken
    obtain ⟨page, rfl, ne0, -⟩ := slabAlloc_spec after pages
    obtain ⟨next, nextGrows, inv, sorted, -⟩ := empty.grow pages
    have sized : objSize ≠ 0 := by omega
    have newGrows := cacheGrow_eq cacheNe
      (show (({ start with zone }.setCache cachep (newCache name objSize flags)).caches
        cachep).objSize ≠ 0 by simpa [newCache] using sized) pages ne0
    have estimatedGrows := cacheGrow_eq cacheNe
      (show (({ start with zone }.setCache cachep estimated).caches cachep).objSize ≠ 0 by
        simpa [estimatedDef, newCache] using sized) pages ne0
    have sameState : grown = next := by
      rw [grows] at newGrows
      rw [nextGrows] at estimatedGrows
      obtain ⟨-, rfl⟩ := mk.inj (some.inj newGrows)
      obtain ⟨-, rfl⟩ := mk.inj (some.inj estimatedGrows)
      simp [Kmem.setCache, Kmem.setSlab, KmemCache.grown, estimatedDef, newCache]
    have slabs : (next.caches cachep).freeList = [page * pageSize] := by
      rw [nextGrows] at estimatedGrows
      obtain ⟨-, rfl⟩ := mk.inj (some.inj estimatedGrows)
      simp [KmemCache.grown, estimatedDef, newCache]
    have emptySorted : Sorted cachep
        ⟨{ start with zone }.setCache cachep estimated, fun _ => [], []⟩ := by
      constructor <;> intro slabp mem <;>
        simp [Session.cache, estimatedDef, newCache] at mem
    subst sameState
    have res : opened cachep { grown with cacheChain := chain } =
        { (⟨grown, fun _ => [], [page * pageSize]⟩ : Session) with
          kmem := { grown with cacheChain := chain } } := by
      simp [opened, slabs]
    rw [res]
    exact ⟨inv.setChain chain, (sorted emptySorted).partialUsed, (sorted emptySorted).fullExact⟩

end Creation

namespace Session

inductive Step (cachep : Nat) (mayFree : Session → Nat → Prop) : Session → Session → Prop
  | get {s : Session} {grant : Grant} {next : Kmem}
      (returns : kmemGetObj cachep s.kmem = some (grant, next)) :
      Step cachep mayFree s (s.granted grant next)
  | free {s : Session} {slabp objp : Nat} (isLive : objp ∈ s.live slabp)
      (allowed : mayFree s slabp) : Step cachep mayFree s (s.give cachep slabp objp)

def Reaches (cachep : Nat) (mayFree : Session → Nat → Prop) : Session → Session → Prop :=
  Relation.ReflTransGen (Step cachep mayFree)

def Roomy (cachep : Nat) (s : Session) (slabp : Nat) : Prop :=
  s.inuse slabp ≠ (s.cache cachep).objNum ∨ (s.cache cachep).objNum = 1

structure Classified (cachep : Nat) (s : Session) : Prop where
  linked : (s.cache cachep).rings.Perm s.slabs
  once : (s.cache cachep).rings.Nodup
  full : ∀ slabp ∈ s.slabs,
    slabp ∈ (s.cache cachep).fullList ↔ s.inuse slabp = (s.cache cachep).objNum
  free : ∀ slabp ∈ s.slabs, slabp ∈ (s.cache cachep).freeList ↔ s.inuse slabp = 0
  partly : ∀ slabp ∈ s.slabs, slabp ∈ (s.cache cachep).partialList ↔
    s.inuse slabp ≠ (s.cache cachep).objNum ∧ s.inuse slabp ≠ 0

def ServesUnused (cachep : Nat) (s : Session) : Prop :=
  (∃ slabp ∈ s.slabs, s.inuse slabp < (s.cache cachep).objNum) →
    ∃ grant next, kmemGetObj cachep s.kmem = some (grant, next) ∧ grant.obj ≠ 0 ∧ grant.grown = []

variable {total cachep : Nat} {s last : Session}

section

variable (inv : s.CacheInv total cachep) (sorted : s.Sorted cachep)
include inv sorted

lemma CacheInv.classified : s.Classified cachep := by
  have ne := inv.nonempty
  have used := sorted.partialUsed
  have full := sorted.fullExact
  have room := inv.partialRoom
  have idle := inv.freeIdle
  refine ⟨inv.rings, inv.ringsNodup, ?_, ?_, ?_⟩ <;> intro slabp mem <;>
    rcases inv.mem_slabs.mp mem with onPartial | onFull | onFree <;> grind

lemma CacheInv.servesUnused : s.ServesUnused cachep := by
  rintro ⟨slabp, mem, unused⟩
  have room : (s.cache cachep).partialList ≠ [] ∨ (s.cache cachep).freeList ≠ [] := by
    rcases inv.mem_slabs.mp mem with onPartial | onFull | onFree
    · exact Or.inl (ne_nil_of_mem onPartial)
    · exact absurd (sorted.fullExact slabp onFull) unused.ne
    · exact Or.inr (ne_nil_of_mem onFree)
  obtain ⟨_, _, next, res, ne0, -⟩ := inv.get_of_room 16 room
  exact ⟨_, next, res, ne0, rfl⟩

lemma CacheInv.reaches (run : Reaches cachep (Roomy cachep) s last) :
    last.CacheInv total cachep ∧ last.Sorted cachep := by
  induction run with
  | refl => exact ⟨inv, sorted⟩
  | tail _ step ih =>
    obtain ⟨before, beforeSorted⟩ := ih
    cases step with
    | get ran =>
      obtain ⟨after, afterSorted⟩ := before.get ran
      exact ⟨after, afterSorted beforeSorted⟩
    | free isLive roomy =>
      exact ⟨before.give isLive, before.give_sorted isLive beforeSorted roomy⟩

end

end Session

open Session

/-- Along every run from the creation of a cache that frees from roomy slabs only, the
slabs stay classified and no unused object is overlooked. -/
theorem classified_of_roomy_run {total cachep objSize flags : Nat} {name : String}
    {start m : Kmem} {s : Session} (zoneInv : start.zone.Inv total) (bounded : total < 2 ^ 20)
    (size : 4 ≤ objSize) (atMost : objSize ≤ 65516)
    (created : kmemCacheCreate (some name) objSize flags start = some (cachep, m))
    (run : Reaches cachep (Roomy cachep) (opened cachep m) s) :
    s.Classified cachep ∧ s.ServesUnused cachep := by
  obtain ⟨inv, sorted⟩ := kmemCacheCreate_inv zoneInv bounded size atMost created
  obtain ⟨lastInv, lastSorted⟩ := inv.reaches sorted run
  exact ⟨lastInv.classified lastSorted, lastInv.servesUnused lastSorted⟩

lemma spareZone_inv : spareZone.Inv 4144 where
  describes := ⟨fun _ _ => rfl, fun _ _ _ => show sysRam &&& sysRam ≠ 0 by decide, by decide⟩
  counted := by
    unfold Buddy.Counted
    decide
  aligned := by
    unfold Buddy.Aligned
    decide
  heldOrder := by decide
  heldAligned := by decide
  tiles := by
    unfold Tiles
    decide

def pairCache : Option (Nat × Kmem) :=
  kmemCacheCreate (some "pair") 30000 0 (spareKmem 0)

def pairKmem : Kmem := (pairCache.get rfl).2

lemma pairCache_eq : pairCache = some (0x1000000, pairKmem) :=
  (some_get (show pairCache.isSome from rfl)).symm

def Session.drawn (cachep : Nat) (s : Session) : Session :=
  match kmemGetObj cachep s.kmem with
  | none => s
  | some (grant, next) => s.granted grant next

lemma Session.step_drawn {cachep : Nat} {mayFree : Session → Nat → Prop} {s : Session}
    (ran : (kmemGetObj cachep s.kmem).isSome) : Step cachep mayFree s (s.drawn cachep) := by
  obtain ⟨⟨_, _⟩, res⟩ := isSome_iff_exists.mp ran
  rw [Session.drawn, res]
  exact Step.get res

theorem pairKmem_classified :
    ((opened 0x1000000 pairKmem).drawn 0x1000000).Classified 0x1000000 :=
  (classified_of_roomy_run spareZone_inv (by decide) (by decide) (by decide) pairCache_eq
    (Relation.ReflTransGen.single (step_drawn rfl))).1

def pairReturned : Session :=
  (((opened 0x1000000 pairKmem).drawn 0x1000000).drawn 0x1000000).give 0x1000000
    0x1010000 0x1010020

/-- The slab is left on the full ring with one of two objects in use, and the next
`kmem_get_obj` grows the cache. -/
theorem pairReturned_unclassified :
    Reaches 0x1000000 (fun _ _ => True) (opened 0x1000000 pairKmem) pairReturned ∧
      0x1010000 ∈ (pairReturned.cache 0x1000000).fullList ∧
      pairReturned.inuse 0x1010000 = 1 ∧ (pairReturned.cache 0x1000000).objNum = 2 ∧
      ¬ pairReturned.Classified 0x1000000 ∧ ¬ pairReturned.ServesUnused 0x1000000 := by
  refine ⟨?_, by decide, by decide, by decide, fun classified => ?_, fun serves => ?_⟩
  · apply Relation.ReflTransGen.tail
    · exact (Relation.ReflTransGen.single (step_drawn rfl)).tail (step_drawn rfl)
    · exact Step.free (by decide) trivial
  · exact absurd ((classified.full 0x1010000 (by decide)).mp (by decide)) (by decide)
  obtain ⟨_, _, result, -, notGrown⟩ := serves ⟨0x1010000, by decide, by decide⟩
  have grows : (kmemGetObj 0x1000000 pairReturned.kmem).map
      (fun returned => returned.1.grown) = some [0x1020000] := by decide
  rw [result, map_some, notGrown] at grows
  cases grows

end PrettyOS.Mm
