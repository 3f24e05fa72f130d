import PrettyOS.Mm.SlabLists

/-!
Contract: what `slab_free_obj` does with pointers that are no objects of the slab, and how
far `kmem_get_obj` grows a cache.
-/

namespace PrettyOS.Mm

open Lib List Nat Option KmemCache Session
open Library.Tiling

def Foreign (cache : KmemCache) (slab : Slab) (objp : Nat) : Prop :=
  objp < slab.sMem ∨ slab.sMem + cache.objNum * cache.objSize ≤ objp

def distance (slab : Slab) (objp : Nat) : Nat :=
  (objp + wordSize - slab.sMem) % wordSize

def Adjoins (cache : KmemCache) (slab : Slab) (objp : Nat) : Prop :=
  (cache.objNum * cache.objSize ≤ distance slab objp ∧
      distance slab objp < (cache.objNum + 1) * cache.objSize) ∨
    wordSize < distance slab objp + cache.objSize

def Refuses (cachep slabp objp : Nat) (m : Kmem) : Prop :=
  (slabFreeObj cachep slabp objp m).1 < 0 ∧ (slabFreeObj cachep slabp objp m).2 = m

section Foreign

variable {cache : KmemCache} {slab : Slab} {cachep slabp objp : Nat} {m : Kmem}

lemma distance_lt : distance slab objp < wordSize := mod_lt _ (by decide)

lemma objToIndex_eq (size : cache.objSize < 2 ^ 31) :
    objToIndex cache slab objp =
      if distance slab objp < 2 ^ 31 then distance slab objp / cache.objSize
      else (wordSize - (wordSize - distance slab objp) / cache.objSize) % wordSize := by
  have bound := @distance_lt slab objp
  change (((toSigned (distance slab objp)).tdiv (toSigned cache.objSize)) % wordSize).toNat = _
  rw [toSigned, toSigned, if_pos size]
  generalize distance slab objp = d at bound ⊢
  split_ifs with ahead
  · have small := Nat.div_le_self d cache.objSize
    rw [← Int.ofNat_tdiv]
    generalize d / cache.objSize = quotient at *
    rw [wordSize] at *
    omega
  have small := Nat.div_le_self (wordSize - d) cache.objSize
  have neg : (d : Int) - wordSize = -((wordSize - d : Nat) : Int) := by omega
  rw [neg, Int.neg_tdiv, ← Int.ofNat_tdiv]
  generalize (wordSize - d) / cache.objSize = quotient at *
  rw [wordSize] at *
  omega

lemma objToIndex_le_iff (ne : 0 < cache.objNum)
    (estimate : cache.objNum = slabEstimate cache.objSize)
    (out : cache.objNum * cache.objSize ≤ distance slab objp) :
    objToIndex cache slab objp ≤ cache.objNum ↔ Adjoins cache slab objp := by
  have pos := objSize_pos estimate ne
  have total := objSize_mul_objNum_le estimate
  have single := Nat.le_mul_of_pos_right cache.objSize ne
  have number := objNum_le estimate
  have bound := @distance_lt slab objp
  have longer : (cache.objNum + 1) * cache.objSize = cache.objSize * cache.objNum + cache.objSize :=
    by ring
  rw [objToIndex_eq (by omega), Adjoins, and_iff_right out]
  generalize distance slab objp = d at *
  split_ifs with ahead
  · rw [← Nat.lt_succ_iff, Nat.div_lt_iff_lt_mul pos, succ_eq_add_one]
    rw [wordSize] at *
    omega
  have rounded := @div_eq_zero_iff_lt cache.objSize (wordSize - d) pos
  have small := Nat.div_le_self (wordSize - d) cache.objSize
  generalize (wordSize - d) / cache.objSize = quotient at *
  rw [wordSize] at *
  omega

/-- Of the pointers outside of a slab exactly those next to its objects are taken for
objects. -/
theorem slabFreeObj_refuses_iff (cacheNotNull : cachep ≠ 0) (slabNotNull : slabp ≠ 0)
    (objNotNull : objp ≠ 0) (word : objp < wordSize) (nonempty : 0 < (m.caches cachep).objNum)
    (estimate : (m.caches cachep).objNum = slabEstimate (m.caches cachep).objSize)
    (inWord : (m.slabs slabp).sMem + (m.caches cachep).objNum * (m.caches cachep).objSize ≤
      wordSize)
    (foreign : Foreign (m.caches cachep) (m.slabs slabp) objp) :
    Refuses cachep slabp objp m ↔ ¬ Adjoins (m.caches cachep) (m.slabs slabp) objp := by
  have outside : (m.caches cachep).objNum * (m.caches cachep).objSize ≤
      distance (m.slabs slabp) objp := by
    rw [Foreign] at foreign
    rw [distance]
    rw [wordSize] at *
    omega
  have passes := objToIndex_le_iff nonempty estimate outside
  rw [Refuses, ← passes]
  by_cases inRange : objToIndex (m.caches cachep) (m.slabs slabp) objp ≤ (m.caches cachep).objNum
  · rw [slabFreeObj_eq cacheNotNull slabNotNull objNotNull rfl inRange]
    simp [inRange]
  · simp [slabFreeObj, cacheNotNull, slabNotNull, objNotNull, Nat.lt_of_not_le inRange]

end Foreign

open Session

def pairDrawn : Session :=
  (opened 0x1000000 pairKmem).drawn 0x1000000

theorem slabFreeObj_refuses_cachePointer : Refuses 0x1000000 0x1010000 0x1000000 pairDrawn.kmem :=
  (slabFreeObj_refuses_iff (by decide) (by decide) (by decide) (by decide) (by decide) (by decide)
    (by decide) (Or.inl (by decide))).mpr (by rw [Adjoins]; decide)

/-- The first pointer behind the two objects and one 16 bytes before them: the slab takes
both back, with one object handed out. -/
theorem slabFreeObj_takes_neighbours :
    Reaches 0x1000000 (fun _ _ => True) (opened 0x1000000 pairKmem) pairDrawn ∧
      ∀ objp ∈ [0x101EA80, 0x1010010],
        Foreign (pairDrawn.cache 0x1000000) (pairDrawn.kmem.slabs 0x1010000) objp ∧
        (slabFreeObj 0x1000000 0x1010000 objp pairDrawn.kmem).1 = 0 ∧
        ¬ Refuses 0x1000000 0x1010000 objp pairDrawn.kmem := by
  refine ⟨Relation.ReflTransGen.single (step_drawn rfl), ?_⟩
  intro objp member
  have foreign : Foreign (pairDrawn.cache 0x1000000) (pairDrawn.kmem.slabs 0x1010000) objp := by
    fin_cases member
    · exact .inr (by decide)
    · exact .inl (by decide)
  have taken : (slabFreeObj 0x1000000 0x1010000 objp pairDrawn.kmem).1 = 0 := by
    fin_cases member <;> decide
  exact ⟨foreign, taken, fun refuses => by simp [Refuses, taken] at refuses⟩

section Pages

variable {cachep slabp objp rounds : Nat} {m next : Kmem} {grant : Grant}

def SamePages (cachep : Nat) (m next : Kmem) : Prop :=
  (next.caches cachep).nrPages = (m.caches cachep).nrPages ∧
    (next.caches cachep).objSize = (m.caches cachep).objSize

lemma kmemGetSlab_samePages : SamePages cachep m (kmemGetSlab cachep m).2 := by
  unfold kmemGetSlab
  split_ifs
  · exact ⟨rfl, rfl⟩
  dsimp only
  split_ifs
  · cases listGetHeadDel (m.caches cachep).freeList <;> simp [SamePages]
  · exact ⟨rfl, rfl⟩

lemma slabGetObj_samePages : SamePages cachep m (slabGetObj cachep slabp m).2 := by
  unfold slabGetObj
  dsimp only
  split_ifs <;> simp [SamePages, unlink]

lemma slabFreeObj_samePages : SamePages cachep m (slabFreeObj cachep slabp objp m).2 := by
  unfold slabFreeObj
  dsimp only
  split_ifs <;> simp [SamePages, unlink]

lemma cacheGrow_pages {code : Int} (cacheNe : cachep ≠ 0)
    (sized : (m.caches cachep).objSize ≠ 0) (grows : cacheGrow cachep m = some (code, next)) :
    (next.caches cachep).nrPages = ((m.caches cachep).nrPages + 16) % wordSize ∧
      (next.caches cachep).objSize = (m.caches cachep).objSize := by
  rw [cacheGrow, if_neg (by simp [cacheNe, sized])] at grows
  cases pages : slabAlloc m.zone with
  | none => simp [pages] at grows
  | some taken =>
    simp only [pages, some.injEq, Prod.mk.injEq] at grows
    rw [← grows.2]
    unfold kmemAddSlab
    split_ifs <;> simp [defaultSlabPages, power]

def looked (cachep : Nat) (m : Kmem) : Nat × Kmem :=
  slabGetObj cachep (kmemGetSlab cachep m).1 (kmemGetSlab cachep m).2

lemma looked_samePages : SamePages cachep m (looked cachep m).2 := by
  obtain ⟨pages, size⟩ := @kmemGetSlab_samePages cachep m
  obtain ⟨lastPages, lastSize⟩ :=
    @slabGetObj_samePages cachep (kmemGetSlab cachep m).1 (kmemGetSlab cachep m).2
  exact ⟨lastPages.trans pages, lastSize.trans size⟩

lemma kmemGetObjRepeat_cases (ran : kmemGetObjRepeat cachep (rounds + 1) m = some (grant, next)) :
    (next = (looked cachep m).2 ∧ grant.grown = [] ∧
        (grant.obj = 0 → 256 ≤ (next.caches cachep).nrPages)) ∨
      ((m.caches cachep).nrPages < 256 ∧ ∃ code larger rest ptr,
        cacheGrow cachep (looked cachep m).2 = some (code, larger) ∧
        kmemGetObjRepeat cachep rounds larger = some (rest, next) ∧
        grant = { rest with grown := ptr :: rest.grown }) := by
  rw [kmemGetObjRepeat] at ran
  dsimp only at ran
  change (if (looked cachep m).1 = 0 then _ else _) = _ at ran
  split_ifs at ran with null limit
  · obtain ⟨rfl, rfl⟩ := Prod.mk.inj (some.inj ran)
    exact .inl ⟨rfl, rfl, fun _ => limit⟩
  · split at ran
    · rename_i ptr zone code larger pages grows
      obtain ⟨⟨rest, _⟩, res, same⟩ := map_eq_some_iff.mp ran
      obtain ⟨rfl, rfl⟩ := Prod.mk.inj same
      have few : (m.caches cachep).nrPages < 256 := by
        rw [← (@looked_samePages cachep m).1]
        exact Nat.lt_of_not_le limit
      exact .inr ⟨few, code, larger, rest, ptr, grows, res, rfl⟩
    · cases ran
  · obtain ⟨rfl, rfl⟩ := Prod.mk.inj (some.inj ran)
    exact .inl ⟨rfl, rfl, fun isNull => absurd isNull null⟩

lemma kmemGetObjRepeat_null (ran : kmemGetObjRepeat cachep rounds m = some (grant, next))
    (null : grant.obj = 0) : 256 ≤ (next.caches cachep).nrPages := by
  induction rounds generalizing m grant with
  | zero => cases ran
  | succ rounds ih =>
    rcases kmemGetObjRepeat_cases ran with ⟨-, -, limit⟩ | ⟨-, _, _, _, _, -, res, rfl⟩
    · exact limit null
    · exact ih res null

lemma kmemGetObjRepeat_pages (cacheNe : cachep ≠ 0) (sized : (m.caches cachep).objSize ≠ 0)
    {slabs : Nat} (atMost : slabs ≤ 16) (pages : (m.caches cachep).nrPages = 16 * slabs)
    (ran : kmemGetObjRepeat cachep rounds m = some (grant, next)) :
    (next.caches cachep).nrPages = 16 * (slabs + grant.grown.length) ∧
      slabs + grant.grown.length ≤ 16 := by
  induction rounds generalizing m grant slabs with
  | zero => cases ran
  | succ rounds ih =>
    obtain ⟨samePages, sameSize⟩ := @looked_samePages cachep m
    rcases kmemGetObjRepeat_cases ran with ⟨rfl, none, -⟩ | ⟨few, _, _, _, _, grows, res, rfl⟩
    · rw [samePages, none]
      exact ⟨pages, atMost⟩
    obtain ⟨cnt, size⟩ := cacheGrow_pages cacheNe (sameSize ▸ sized) grows
    rw [samePages, pages] at cnt
    rw [pages] at few
    have counted' := cnt.trans (mod_eq_of_lt (by rw [wordSize]; omega))
    obtain ⟨_, _⟩ := @ih _ _ (by rw [size, sameSize]; exact sized) (slabs + 1)
      (by omega) (by omega) res
    rw [length_cons]
    omega

end Pages

structure OutOfPages (cachep : Nat) (m : Kmem) : Prop where
  noPartial : (m.caches cachep).partialList = []
  noFree : (m.caches cachep).freeList = []
  few : (m.caches cachep).nrPages < 256
  noPages : ∃ zone, slabAlloc m.zone = some (0, zone)

def Survives (cachep : Nat) (m : Kmem) : Prop :=
  ∃ grant next, kmemGetObj cachep m = some (grant, next) ∧ grant.obj = 0 ∧
    next.slabs 0 = m.slabs 0 ∧ (next.caches cachep).nrPages = (m.caches cachep).nrPages ∧
    (next.caches cachep).nrFrees = (m.caches cachep).nrFrees ∧
    (next.caches cachep).partialList = (m.caches cachep).partialList ∧
    (next.caches cachep).fullList = (m.caches cachep).fullList ∧
    (next.caches cachep).freeList = (m.caches cachep).freeList

/-- The only way to NULL is to count 256 pages. -/
theorem kmemGetObj_never_survives {cachep : Nat} {m : Kmem} (out : OutOfPages cachep m) :
    ¬ Survives cachep m := by
  rintro ⟨_, _, returns, null, -, _, -⟩
  have limit := kmemGetObjRepeat_null returns null
  have few := out.few
  omega

def nullKmem : Kmem where
  zone := ⟨⟨fun _ => ⟨0, sysRam⟩, fun order => if order = 4 then ⟨[0], 1⟩ else ⟨[], 0⟩⟩, []⟩
  slabs := fun _ => ⟨0, 0, 0, fun _ => 0⟩
  caches := fun _ => ⟨"", 0, 0, 240, 30000, 0, [], [], []⟩
  cacheChain := []

theorem nullKmem_never_survives : OutOfPages 0x1000 nullKmem ∧ ¬ Survives 0x1000 nullKmem :=
  have out : OutOfPages 0x1000 nullKmem := ⟨rfl, rfl, by decide, _, rfl⟩
  ⟨out, kmemGetObj_never_survives out⟩

/-- The call counts 16 more pages and initialises a slab at address 0. -/
theorem nullKmem_counts_pages : ∃ grant next, kmemGetObj 0x1000 nullKmem = some (grant, next) ∧
    grant = ⟨0, 0, [0]⟩ ∧ (next.caches 0x1000).nrPages = 256 ∧ (next.slabs 0).sMem = 32 ∧
    (nullKmem.slabs 0).sMem = 0 ∧ ¬ Survives 0x1000 nullKmem := by
  have returns := (some_get (show (kmemGetObj 0x1000 nullKmem).isSome from rfl)).symm
  have pages : (((kmemGetObj 0x1000 nullKmem).get rfl).2.caches 0x1000).nrPages = 256 := by decide
  refine ⟨_, _, returns, by decide, pages, by decide, rfl, ?_⟩
  rintro ⟨grant, next, result, -, -, same, -⟩
  rw [some.inj (returns.symm.trans result)] at pages
  exact absurd (pages.symm.trans same) (by decide)

def Session.Counted (cachep : Nat) (s : Session) : Prop :=
  (s.cache cachep).nrPages = 16 * s.slabs.length ∧ s.slabs.length ≤ 16

section Growth

variable {total cachep objSize flags : Nat} {name : String} {start m : Kmem} {s last : Session}
  {mayFree : Session → Nat → Prop}

lemma kmemCacheCreate_counted (zoneInv : start.zone.Inv total) (sized : objSize ≠ 0)
    (created : kmemCacheCreate (some name) objSize flags start = some (cachep, m)) :
    (opened cachep m).Counted cachep := by
  obtain ⟨cacheNe, zone, _, grown, _, after, grows, rfl⟩ :=
    kmemCacheCreate_spec zoneInv sized created
  cases pages : slabAlloc zone with
  | none => simp [cacheGrow, cacheNe, newCache, sized, pages] at grows
  | some taken =>
    obtain ⟨-, -, ne0, -⟩ := slabAlloc_spec after pages
    have grew := @cacheGrow_eq cachep _
      ({ start with zone }.setCache cachep (newCache name objSize flags)) _ cacheNe
      (by simpa [newCache] using sized) pages ne0
    rw [grows] at grew
    obtain ⟨-, rfl⟩ := Prod.mk.inj (some.inj grew)
    simp [Counted, opened, cache, grown, newCache, defaultSlabPages, power, wordSize]

lemma Session.CacheInv.run (inv : s.CacheInv total cachep) (cnt : s.Counted cachep)
    (run : Reaches cachep mayFree s last) : last.CacheInv total cachep ∧ last.Counted cachep := by
  induction run with
  | refl => exact ⟨inv, cnt⟩
  | tail _ step ih =>
    obtain ⟨before, pages, atMost⟩ := ih
    cases step with
    | get ran =>
      obtain ⟨_, _⟩ := kmemGetObjRepeat_pages before.cacheNotNull
        (objSize_pos before.estimate before.nonempty).ne' atMost pages ran
      refine ⟨(before.get ran).1, ?_⟩
      simp only [Counted, granted, cache, length_append, length_reverse]
      omega
    | free isLive _ => exact ⟨before.give isLive, slabFreeObj_samePages.1.trans pages, atMost⟩

end Growth

end PrettyOS.Mm
