import PrettyOS.Mm.SlabGrowth

/-!
Contract: the slabs of `mm/slab.c` as words of one memory, and how far `kmem_get_obj` grows a
cache.

The header of a slab and the index array behind it are aligned words, so a store through one
slab can be read through another. A call is the call of `Slab` on the slabs that the memory
shows, and what it leaves of its slab is stored back. The `kmem_cache` structures and the
objects are no part of this memory: what a client writes to an object is not modelled.
-/

namespace PrettyOS.Mm

open Lib List Nat Function Option

/-- The state of `mm/slab.c` with the slabs as words of memory. -/
structure KmemMemory where
  zone : Zone
  word : Nat → Nat
  caches : Nat → KmemCache
  cacheChain : List Nat

namespace KmemMemory

/-! ## The calls -/

/-- The words at `slabp`, read as a `struct slab` with its index array. -/
def slab (w : KmemMemory) (slabp : Nat) : Slab where
  sMem := w.word (slabp + 8)
  free := w.word (slabp + 12)
  inuse := w.word (slabp + 16)
  bufctl i := w.word (slabp + 20 + 4 * i)

/-- What the memory shows of every slab. -/
def kmem (w : KmemMemory) : Kmem where
  zone := w.zone
  slabs := w.slab
  caches := w.caches
  cacheChain := w.cacheChain

/-- Stores the header of a slab and `count` entries of its index array. -/
def put (word : Nat → Nat) (slabp count : Nat) (slab : Slab) : Nat → Nat := fun addr =>
  if addr = slabp + 8 then slab.sMem
  else if addr = slabp + 12 then slab.free
  else if addr = slabp + 16 then slab.inuse
  else if slabp + 20 ≤ addr ∧ addr < slabp + 20 + 4 * count ∧ 4 ∣ addr - slabp then
    slab.bufctl ((addr - slabp - 20) / 4)
  else word addr

/-- The memory after a call that leaves `m` and has touched the slab at `slabp` alone. -/
def keep (w : KmemMemory) (slabp count : Nat) (m : Kmem) : KmemMemory where
  zone := m.zone
  word := put w.word slabp count (m.slabs slabp)
  caches := m.caches
  cacheChain := m.cacheChain

def slabGetObj (cachep slabp : Nat) (w : KmemMemory) : Nat × KmemMemory :=
  let (objp, taken) := Mm.slabGetObj cachep slabp w.kmem
  (objp, w.keep slabp 0 taken)

def slabFreeObj (cachep slabp objp : Nat) (w : KmemMemory) : Int × KmemMemory :=
  let objnr := objToIndex (w.caches cachep) (w.slab slabp) objp
  let (code, freed) := Mm.slabFreeObj cachep slabp objp w.kmem
  (code, w.keep slabp (objnr + 1) freed)

def kmemGetSlab (cachep : Nat) (w : KmemMemory) : Nat × KmemMemory :=
  let (slabp, chosen) := Mm.kmemGetSlab cachep w.kmem
  (slabp, { w with caches := chosen.caches })

def cacheGrow (cachep : Nat) (w : KmemMemory) : Option (Int × KmemMemory) :=
  let ptr := ((slabAlloc w.zone).map Prod.fst).getD 0
  (Mm.cacheGrow cachep w.kmem).map fun (code, grown) =>
    (code, w.keep ptr (grown.caches cachep).objNum grown)

def kmemGetObjRepeat (cachep : Nat) : (rounds : Nat) → KmemMemory → Option (Grant × KmemMemory)
  | 0, _ => none
  | rounds + 1, w =>
      let (slabp, chosen) := kmemGetSlab cachep w
      let (obj, taken) := slabGetObj cachep slabp chosen
      if obj = 0 then
        if power maxSlabPages ≤ (taken.caches cachep).nrPages then
          some (⟨0, slabp, []⟩, taken)
        else
          match slabAlloc taken.zone, cacheGrow cachep taken with
          | some (ptr, _), some (_, larger) =>
              (kmemGetObjRepeat cachep rounds larger).map fun (grant, last) =>
                ({ grant with grown := ptr :: grant.grown }, last)
          | _, _ => none
      else
        some (⟨obj, slabp, []⟩, taken)

def kmemGetObj (cachep : Nat) (w : KmemMemory) : Option (Grant × KmemMemory) :=
  kmemGetObjRepeat cachep 17 w

def kmemCacheCreate (name : Option String) (objSize flags : Nat) (w : KmemMemory) :
    Option (Nat × KmemMemory) :=
  match name with
  | none => some (0, w)
  | some name =>
      if objSize = 0 then
        some (0, w)
      else
        match kmemCacheAlloc w.kmem with
        | none => none
        | some (ptr, allocated) =>
            if ptr = 0 then
              some (0, { w with zone := allocated.zone })
            else
              match cacheGrow ptr { w with
                zone := allocated.zone
                caches := update w.caches ptr (newCache name objSize flags) } with
              | none => none
              | some (_, grown) =>
                  some (ptr,
                    { grown with cacheChain := (kmemChainAdd ptr grown.kmem).2.cacheChain })

/-- The memory with the objects its clients hold of each slab, and the slabs ever added. -/
structure Session where
  memory : KmemMemory
  live : Nat → List Nat
  slabs : List Nat

namespace Session

def opened (cachep : Nat) (w : KmemMemory) : Session where
  memory := w
  live := fun _ => []
  slabs := (w.caches cachep).freeList

def granted (r : Session) (grant : Grant) (next : KmemMemory) : Session where
  memory := next
  live :=
    if grant.obj = 0 then r.live
    else update r.live grant.slab (grant.obj :: r.live grant.slab)
  slabs := grant.grown.reverse ++ r.slabs

def give (r : Session) (cachep slabp objp : Nat) : Session where
  memory := (slabFreeObj cachep slabp objp r.memory).2
  live := update r.live slabp ((r.live slabp).erase objp)
  slabs := r.slabs

inductive Step (cachep : Nat) : Session → Session → Prop
  | get {r : Session} {grant : Grant} {next : KmemMemory}
      (returns : kmemGetObj cachep r.memory = some (grant, next)) :
      Step cachep r (r.granted grant next)
  | free {r : Session} {slabp objp : Nat} (isLive : objp ∈ r.live slabp) :
      Step cachep r (r.give cachep slabp objp)

def Reaches (cachep : Nat) : Session → Session → Prop :=
  Relation.ReflTransGen (Step cachep)

/-- `kmem_get_obj` returns after one growth at most, NULL only with 256 pages, and the cache
counts sixteen pages for every slab it was given, 256 at most. -/
structure BoundedGrowth (cachep : Nat) (r : Session) : Prop where
  served : ∃ grant next, kmemGetObj cachep r.memory = some (grant, next) ∧
    grant.grown.length ≤ 1 ∧ (grant.obj = 0 → 256 ≤ (next.caches cachep).nrPages)
  counted : (r.memory.caches cachep).nrPages = 16 * r.slabs.length
  limit : (r.memory.caches cachep).nrPages ≤ 256

end Session

/-! ## What the memory shows -/

/-- Two slabs with one header and one index array of `count` entries. -/
structure Agree (count : Nat) (one other : Slab) : Prop where
  sMem : one.sMem = other.sMem
  free : one.free = other.free
  inuse : one.inuse = other.inuse
  bufctl : ∀ i < count, one.bufctl i = other.bufctl i

section Agree

variable {count n : Nat} {one other third : Slab}

theorem Agree.trans (first : Agree n one other) (second : Agree n other third) :
    Agree n one third where
  sMem := first.sMem.trans second.sMem
  free := first.free.trans second.free
  inuse := first.inuse.trans second.inuse
  bufctl i lt := (first.bufctl i lt).trans (second.bufctl i lt)

theorem Agree.taken (agree : Agree n one other) (lt : other.free < n) :
    Agree n one.taken other.taken where
  sMem := agree.sMem
  free := by
    simp only [Slab.taken, agree.free]
    exact agree.bufctl _ lt
  inuse := by simp only [Slab.taken, agree.inuse]
  bufctl := agree.bufctl

theorem Agree.returned (agree : Agree n one other) (objnr : Nat) :
    Agree n (one.returned objnr) (other.returned objnr) where
  sMem := agree.sMem
  free := rfl
  inuse := by simp only [Slab.returned, agree.inuse]
  bufctl i lt := by
    simp only [Slab.returned, update_apply, agree.free]
    rw [agree.bufctl i lt]

theorem agree_slabInit (cache : KmemCache) (args : Nat) :
    Agree cache.objNum (slabInit cache one args) (slabInit cache other args) where
  sMem := rfl
  free := rfl
  inuse := rfl
  bufctl i lt := by
    simp only [slabInit]
    rw [if_pos lt, if_pos lt]

end Agree

section Keep

variable {w : KmemMemory} {m : Kmem} {slabp other count n : Nat}

theorem put_before {word : Nat → Nat} {slab : Slab} {addr : Nat} (before : addr < slabp + 8) :
    put word slabp count slab addr = word addr := by
  rw [put, if_neg (by omega), if_neg (by omega), if_neg (by omega), if_neg (by omega)]

theorem put_entry {word : Nat → Nat} {slab : Slab} (i : Nat) :
    put word slabp count slab (slabp + 20 + 4 * i) =
      if i < count then slab.bufctl i else word (slabp + 20 + 4 * i) := by
  rw [put, if_neg (by omega), if_neg (by omega), if_neg (by omega)]
  by_cases lt : i < count
  · rw [if_pos (by omega), if_pos lt]
    congr 1
    omega
  · rw [if_neg (by omega), if_neg lt]

theorem put_apart {word : Nat → Nat} {slab : Slab} {addr : Nat}
    (apart : slabp + 65536 ≤ addr ∨ addr < slabp) (inside : 20 + 4 * count ≤ 65536) :
    put word slabp count slab addr = word addr := by
  rw [put, if_neg (by omega), if_neg (by omega), if_neg (by omega), if_neg (by omega)]

theorem keep_kmem : w.keep slabp count w.kmem = w := by
  have same : put w.word slabp count (w.slab slabp) = w.word := by
    funext addr
    rw [put]
    split_ifs with _ _ _ entry
    · subst addr
      rfl
    · subst addr
      rfl
    · subst addr
      rfl
    · change w.word _ = _
      congr 1
      omega
    · rfl
  exact congrArg (fun word => { w with word }) same

/-- A store that leaves out entries which were there already is shown by its slab. -/
theorem put_agree {next : KmemMemory} {slab : Slab}
    (stored : next.word = put w.word slabp count slab)
    (entries : ∀ i, count ≤ i → i < n → (w.slab slabp).bufctl i = slab.bufctl i) :
    Agree n (next.slab slabp) slab where
  sMem := by simp [KmemMemory.slab, stored, put]
  free := by simp [KmemMemory.slab, stored, put]
  inuse := by simp [KmemMemory.slab, stored, put]
  bufctl i lt := by
    simp only [KmemMemory.slab, stored]
    rw [put_entry]
    split_ifs with written
    · rfl
    · exact entries i (Nat.not_lt.mp written) lt

/-- A slab in another block of sixteen pages keeps its header and its array. -/
theorem keep_agree_apart (apart : slabp + 65536 ≤ other ∨ other + 65536 ≤ slabp)
    (inside : 20 + 4 * count ≤ 65536) (array : 20 + 4 * n ≤ 65536) :
    Agree n ((w.keep slabp count m).slab other) (w.slab other) where
  sMem := put_apart (by omega) inside
  free := put_apart (by omega) inside
  inuse := put_apart (by omega) inside
  bufctl i lt := put_apart (by omega) inside

end Keep

/-- The memory shows the slabs in the list as `m` has them. -/
structure Shows (cachep : Nat) (slabs : List Nat) (m : Kmem) (w : KmemMemory) : Prop where
  zone : w.zone = m.zone
  caches : w.caches = m.caches
  slab : ∀ slabp ∈ slabs, Agree (m.caches cachep).objNum (w.slab slabp) (m.slabs slabp)

section Shows

variable {cachep slabp count : Nat} {slabs : List Nat} {m next left : Kmem} {w : KmemMemory}

theorem Shows.keep (zone : left.zone = next.zone) (caches : left.caches = next.caches)
    (inside : 20 + 4 * count ≤ 65536)
    (array : 20 + 4 * (next.caches cachep).objNum ≤ 65536)
    (changed : Agree (next.caches cachep).objNum (left.slabs slabp) (next.slabs slabp))
    (entries : ∀ i, count ≤ i → i < (next.caches cachep).objNum →
      (w.slab slabp).bufctl i = (left.slabs slabp).bufctl i)
    (others : ∀ other ∈ slabs, other ≠ slabp →
      (slabp + 65536 ≤ other ∨ other + 65536 ≤ slabp) ∧
        Agree (next.caches cachep).objNum (w.slab other) (next.slabs other)) :
    Shows cachep (slabp :: slabs) next (w.keep slabp count left) where
  zone := zone
  caches := caches
  slab other member := by
    by_cases same : other = slabp
    · subst same
      exact (put_agree rfl entries).trans changed
    · obtain ⟨apart, agree⟩ := others other (mem_of_ne_of_mem same member) same
      exact (keep_agree_apart apart inside array).trans agree

theorem Shows.mono {fewer : List Nat} (shown : Shows cachep slabs m w) (sub : fewer ⊆ slabs) :
    Shows cachep fewer m w :=
  ⟨shown.zone, shown.caches, fun slabp member => shown.slab slabp (sub member)⟩

end Shows

/-! ## The calls follow the ones of `Slab` -/

section Follow

variable {total cachep slabp objp : Nat} {s : Mm.Session} {w : KmemMemory}

theorem slab_aligned (inv : s.CacheInv total cachep) (member : slabp ∈ s.slabs) :
    65536 ∣ slabp := by
  obtain ⟨page, rfl, block⟩ := inv.held slabp member
  obtain ⟨multiple, rfl⟩ : 2 ^ 4 ∣ page := inv.zone.heldAligned _ block
  exact ⟨multiple, by rw [pageSize]; omega⟩

theorem apart_of_aligned {one other : Nat} (first : 65536 ∣ one) (second : 65536 ∣ other)
    (ne : other ≠ one) : one + 65536 ≤ other ∨ other + 65536 ≤ one := by
  omega

theorem array_inside (inv : s.CacheInv total cachep) :
    20 + 4 * (s.cache cachep).objNum ≤ 65536 := by
  have objects := objSize_mul_objNum_le inv.estimate
  have array := Nat.mul_le_mul_right (s.cache cachep).objNum inv.size
  omega

theorem Shows.getSlab {slabs : List Nat} {m : Kmem} (shown : Shows cachep slabs m w) :
    (kmemGetSlab cachep w).1 = (Mm.kmemGetSlab cachep m).1 ∧
      Shows cachep slabs (Mm.kmemGetSlab cachep m).2 (kmemGetSlab cachep w).2 := by
  have caches : w.kmem.caches = m.caches := shown.caches
  simp only [KmemMemory.kmemGetSlab, Mm.kmemGetSlab, caches]
  split_ifs
  · exact ⟨rfl, shown⟩
  · split
    · exact ⟨rfl, shown⟩
    · refine ⟨rfl, shown.zone, by simp [caches], ?_⟩
      intro slabp member
      simp only [Kmem.setCache_caches, update_self]
      exact shown.slab slabp member
  · exact ⟨rfl, shown⟩

theorem Shows.grow {slabs : List Nat} {m : Kmem} {ptr : Nat} {zone : Zone}
    (shown : Shows cachep slabs m w) (cacheNe : cachep ≠ 0)
    (sized : (m.caches cachep).objSize ≠ 0) (pages : slabAlloc m.zone = some (ptr, zone))
    (ne0 : ptr ≠ 0) (array : 20 + 4 * slabEstimate (m.caches cachep).objSize ≤ 65536)
    (others : ∀ other ∈ slabs, (ptr + 65536 ≤ other ∨ other + 65536 ≤ ptr) ∧
      (m.caches cachep).objNum = slabEstimate (m.caches cachep).objSize) :
    ∃ next larger, Mm.cacheGrow cachep m = some (0, next) ∧
      cacheGrow cachep w = some (0, larger) ∧ Shows cachep (ptr :: slabs) next larger := by
  have caches : w.kmem.caches = m.caches := shown.caches
  have stored : slabAlloc w.kmem.zone = some (ptr, zone) := by
    rw [show w.kmem.zone = m.zone from shown.zone]
    exact pages
  have grows := cacheGrow_eq cacheNe (caches ▸ sized) stored ne0
  have address : ((slabAlloc w.zone).map Prod.fst).getD 0 = ptr := by
    rw [show slabAlloc w.zone = some (ptr, zone) from stored]
    rfl
  refine ⟨_, _, cacheGrow_eq cacheNe sized pages ne0, by rw [KmemMemory.cacheGrow, grows]; rfl, ?_⟩
  rw [address, caches]
  apply Shows.keep
  · rfl
  · simp
  · simpa [KmemCache.grown] using array
  · simpa [KmemCache.grown] using array
  · simpa using agree_slabInit _ _
  · intro i behind lt
    simp [KmemCache.grown] at behind lt
    omega
  · intro other member ne
    obtain ⟨apart, number⟩ := others other member
    refine ⟨apart, ?_⟩
    simpa [KmemCache.grown, ne, ← number] using shown.slab other member

section

variable (inv : s.CacheInv total cachep) (shown : Shows cachep s.slabs s.kmem w)
include inv shown

/-- A call that changes one slab of a cache and keeps the shape of the cache. -/
theorem Shows.change {count : Nat} {left next : Kmem} (member : slabp ∈ s.slabs)
    (zone : left.zone = next.zone) (caches : left.caches = next.caches)
    (number : (next.caches cachep).objNum = (s.cache cachep).objNum)
    (atMost : count ≤ (s.cache cachep).objNum)
    (changed : Agree (s.cache cachep).objNum (left.slabs slabp) (next.slabs slabp))
    (entries : ∀ i, count ≤ i → (w.slab slabp).bufctl i = (left.slabs slabp).bufctl i)
    (others : ∀ other, other ≠ slabp → next.slabs other = s.kmem.slabs other) :
    Shows cachep s.slabs next (w.keep slabp count left) := by
  have array := array_inside inv
  refine Shows.mono (?_ : Shows cachep (slabp :: s.slabs) _ _) (subset_cons_self _ _)
  apply Shows.keep zone caches (by omega) (by omega) (number ▸ changed)
  · intro i behind _
    exact entries i behind
  intro other otherMem ne
  rw [number, others other ne]
  exact ⟨apart_of_aligned (slab_aligned inv member) (slab_aligned inv otherMem) ne,
    shown.slab other otherMem⟩

theorem Shows.getObj (onPartial : slabp ∈ (s.cache cachep).partialList) :
    (slabGetObj cachep slabp w).1 = (Mm.slabGetObj cachep slabp s.kmem).1 ∧
      Shows cachep s.slabs (Mm.slabGetObj cachep slabp s.kmem).2 (slabGetObj cachep slabp w).2 := by
  have member := inv.mem_slabs.mpr (.inl onPartial)
  have room := inv.partialRoom slabp onPartial
  have lt := (inv.slab slabp member).free_lt room
  have agree := shown.slab slabp member
  have slabNe := (inv.slab_bounds member).1
  have unused := (inv.slab slabp member).free_ne room
  have stored : (w.kmem.slabs slabp).free ≠ bufctlEnd := agree.free ▸ unused
  have caches : w.kmem.caches = s.kmem.caches := shown.caches
  rw [KmemMemory.slabGetObj, Mm.slabGetObj_eq inv.cacheNotNull slabNe stored,
    Mm.slabGetObj_eq inv.cacheNotNull slabNe unused, caches]
  have taken := agree.taken lt
  have inuse : (w.kmem.slabs slabp).taken.inuse = (s.kmem.slabs slabp).taken.inuse := taken.inuse
  constructor
  · change indexToObj _ (w.slab slabp) _ = _
    rw [indexToObj, indexToObj, agree.sMem, show (w.kmem.slabs slabp).free = _ from agree.free]
  · apply Shows.change inv shown member
    · exact shown.zone
    · simp [caches, inuse]
    · simp
    · exact Nat.zero_le _
    · simp only [Kmem.setCache_slabs, Kmem.setSlab_slabs, update_self]
      exact taken
    · intro i _
      simp [kmem, Slab.taken]
    · intro other ne
      simp [ne]

theorem Shows.freeObj (isLive : objp ∈ s.live slabp) :
    Shows cachep s.slabs (Mm.slabFreeObj cachep slabp objp s.kmem).2
      (slabFreeObj cachep slabp objp w).2 := by
  have member := inv.mem_of_live isLive
  have agree := shown.slab slabp member
  have slabNe := (inv.slab_bounds member).1
  have objNe := (inv.slab slabp member).notNull objp isLive
  have lt := (inv.slab slabp member).index_lt isLive
  have caches : w.kmem.caches = s.kmem.caches := shown.caches
  have index : objToIndex (w.kmem.caches cachep) (w.kmem.slabs slabp) objp =
      objToIndex (s.cache cachep) (s.kmem.slabs slabp) objp := by
    rw [caches]
    exact congrFun (objToIndex_congr agree.sMem) objp
  set objnr := objToIndex (s.cache cachep) (s.kmem.slabs slabp) objp with objnrDef
  have changed := agree.returned objnr
  have inuse : ((w.kmem.slabs slabp).returned objnr).inuse =
      ((s.kmem.slabs slabp).returned objnr).inuse := changed.inuse
  have here : objToIndex (w.caches cachep) (w.slab slabp) objp = objnr := index
  rw [KmemMemory.slabFreeObj, here,
    slabFreeObj_eq inv.cacheNotNull slabNe objNe index (caches ▸ lt.le),
    slabFreeObj_eq inv.cacheNotNull slabNe objNe objnrDef.symm lt.le, caches]
  apply Shows.change inv shown member
  · exact shown.zone
  · simp [caches, inuse]
  · simp
  · exact lt
  · simp only [Kmem.setCache_slabs, Kmem.setSlab_slabs, update_self]
    exact changed
  · intro i behind
    have ne : i ≠ objnr := by omega
    simp [kmem, Slab.returned, ne]
  · intro other ne
    simp [ne]

end

/-- One call over both states: the same grant, and the memory shows what the slabs become. -/
def Follows (cachep : Nat) (slabs : List Nat) :
    Option (Grant × Kmem) → Option (Grant × KmemMemory) → Prop :=
  Option.Rel fun kept stored =>
    stored.1 = kept.1 ∧ Shows cachep (kept.1.grown.reverse ++ slabs) kept.2 stored.2

section

variable (inv : s.CacheInv total cachep) (shown : Shows cachep s.slabs s.kmem w)
include inv shown

theorem Shows.follows_of_room (rounds : Nat)
    (room : (s.cache cachep).partialList ≠ [] ∨ (s.cache cachep).freeList ≠ []) :
    Follows cachep s.slabs (Mm.kmemGetObjRepeat cachep (rounds + 1) s.kmem)
      (kmemGetObjRepeat cachep (rounds + 1) w) := by
  obtain ⟨slabp, chosen, choice, chosenInv, onPartial, -⟩ := inv.choose room
  obtain ⟨sameSlab, chosenShown⟩ := shown.getSlab
  rw [choice] at sameSlab chosenShown
  obtain ⟨sameObj, takenShown⟩ := Shows.getObj chosenInv chosenShown onPartial
  have ne0 : (Mm.slabGetObj cachep slabp chosen).1 ≠ 0 := chosenInv.slabGetObj_ne_zero onPartial
  simp only [Mm.kmemGetObjRepeat, kmemGetObjRepeat, choice, sameSlab, sameObj, if_neg ne0]
  exact .some ⟨rfl, takenShown⟩

theorem Shows.follows : Follows cachep s.slabs (Mm.kmemGetObj cachep s.kmem)
    (kmemGetObj cachep w) := by
  by_cases room : (s.cache cachep).partialList ≠ [] ∨ (s.cache cachep).freeList ≠ []
  · exact shown.follows_of_room inv 16 room
  obtain ⟨noPartial, noFree⟩ := not_or.mp room
  have caches : w.kmem.caches = s.kmem.caches := shown.caches
  have noneKept := kmemGetSlab_none (not_not.mp noPartial) (not_not.mp noFree)
  have noneStored : kmemGetSlab cachep w = (0, w) := by
    rw [KmemMemory.kmemGetSlab, kmemGetSlab_none (by rw [caches]; exact not_not.mp noPartial)
      (by rw [caches]; exact not_not.mp noFree)]
    rfl
  have nothingKept : Mm.slabGetObj cachep 0 s.kmem = (0, s.kmem) := by simp [Mm.slabGetObj]
  have nothingStored : slabGetObj cachep 0 w = (0, w) := by
    simp [slabGetObj, Mm.slabGetObj, keep_kmem]
  rw [Mm.kmemGetObj, Mm.kmemGetObjRepeat, kmemGetObj, kmemGetObjRepeat]
  simp only [noneKept, noneStored, nothingKept, nothingStored, shown.caches, ↓reduceIte]
  split_ifs with limit
  · exact .some ⟨rfl, shown⟩
  rw [shown.zone]
  cases pages : slabAlloc s.kmem.zone with
  | none => exact .none
  | some taken =>
    obtain ⟨ptr, zone⟩ := taken
    obtain ⟨next, grows, nextInv, -, free⟩ := inv.grow pages
    obtain ⟨absent, -⟩ := nodup_cons.mp nextInv.nodup
    have ptrBounds := nextInv.slab_bounds mem_cons_self
    obtain ⟨kept, larger, keptGrows, storedGrows, largerShown⟩ := shown.grow inv.cacheNotNull
      (lt_of_lt_of_le (by decide) inv.size).ne' pages ptrBounds.1
      (by rw [← inv.estimate]; exact array_inside inv) (by
        intro other member
        refine ⟨apart_of_aligned (slab_aligned nextInv mem_cons_self)
          (slab_aligned inv member) ?_, inv.estimate⟩
        rintro rfl
        exact absent member)
    rw [grows] at keptGrows
    obtain ⟨-, rfl⟩ := Prod.mk.inj (some.inj keptGrows)
    have rest := largerShown.follows_of_room nextInv 15 (.inr free)
    simp only [grows, storedGrows]
    generalize Mm.kmemGetObjRepeat cachep (15 + 1) next = keptRest at rest ⊢
    generalize kmemGetObjRepeat cachep (15 + 1) larger = storedRest at rest ⊢
    cases rest with
    | none => exact .none
    | some both =>
      obtain ⟨same, lastShown⟩ := both
      exact .some ⟨by simp [same], by simpa using lastShown⟩

end

end Follow

/-! ## Every run -/

theorem estimate_inside {objSize : Nat} (size : 4 ≤ objSize) :
    20 + 4 * slabEstimate objSize ≤ 65536 := by
  have fewer : 65516 / objSize ≤ 65516 / 4 := Nat.div_le_div_left size (by decide)
  rw [slabEstimate_eq]
  omega

section Run

variable {total cachep objSize flags : Nat} {name : String} {start w : KmemMemory}
  {r next : Session} {m : Kmem}

theorem Shows.create (zoneInv : start.zone.Inv total) (size : 4 ≤ objSize)
    (created : kmemCacheCreate (some name) objSize flags start = some (cachep, w)) :
    ∃ m, Mm.kmemCacheCreate (some name) objSize flags start.kmem = some (cachep, m) ∧
      Shows cachep (m.caches cachep).freeList m w := by
  have sized : objSize ≠ 0 := by omega
  rw [kmemCacheCreate, if_neg sized] at created
  cases ran : kmemCacheAlloc start.kmem with
  | none => simp [ran] at created
  | some res =>
    obtain ⟨ptr, allocated⟩ := res
    obtain ⟨ne0, zone, zoneAfter, shape⟩ := kmemCacheAlloc_spec zoneInv ran
    have zoneEq : allocated.zone = zone := by rw [shape]
    simp only [ran, if_neg ne0] at created
    set fresh := allocated.setCache ptr (newCache name objSize flags) with freshDef
    set stored : KmemMemory := { start with
      zone := allocated.zone
      caches := update start.caches ptr (newCache name objSize flags) } with storedDef
    have shown : Shows ptr [] fresh stored := by
      refine ⟨rfl, ?_, by simp⟩
      rw [freshDef, shape]
      rfl
    have freshSize : (fresh.caches ptr).objSize = objSize := by simp [freshDef, newCache]
    cases pages : slabAlloc fresh.zone with
    | none =>
      have stuck : cacheGrow ptr stored = none := by
        have kept : Mm.cacheGrow ptr stored.kmem = none := by
          have noPages : slabAlloc stored.kmem.zone = none := pages
          have storedSize : (stored.kmem.caches ptr).objSize ≠ 0 := by
            simpa [storedDef, kmem, newCache] using sized
          simp [Mm.cacheGrow, ne0, noPages, storedSize]
        simp [cacheGrow, kept]
      simp [stuck] at created
    | some taken =>
      obtain ⟨slabp, rest⟩ := taken
      obtain ⟨-, -, slabNe, -⟩ := slabAlloc_spec (zoneEq ▸ zoneAfter) pages
      obtain ⟨grown, larger, keptGrows, storedGrows, after⟩ := shown.grow ne0
        (freshSize ▸ sized) pages slabNe (by rw [freshSize]; exact estimate_inside size) (by simp)
      rw [storedGrows] at created
      obtain ⟨rfl, rfl⟩ := Prod.mk.inj (some.inj created)
      obtain ⟨chain, link⟩ := kmemChainAdd_eq ptr grown
      have kept : Mm.kmemCacheCreate (some name) objSize flags start.kmem =
          some (ptr, { grown with cacheChain := chain }) := by
        rw [← link, Mm.kmemCacheCreate, if_neg sized]
        simp only [ran, if_neg ne0, ← freshDef, keptGrows]
      have slabs : (grown.caches ptr).freeList = [slabp] := by
        rw [cacheGrow_eq ne0 (freshSize ▸ sized) pages slabNe] at keptGrows
        obtain ⟨-, rfl⟩ := Prod.mk.inj (some.inj keptGrows)
        simp [KmemCache.grown, freshDef, newCache]
      refine ⟨_, kept, after.zone, after.caches, ?_⟩
      rw [slabs]
      exact after.slab

theorem Session.Step.follows (inv : Mm.Session.CacheInv total cachep ⟨m, r.live, r.slabs⟩)
    (shown : Shows cachep r.slabs m r.memory) (step : Step cachep r next) :
    ∃ after, Mm.Session.Step cachep (fun _ _ => True) ⟨m, r.live, r.slabs⟩
        ⟨after, next.live, next.slabs⟩ ∧ Shows cachep next.slabs after next.memory := by
  cases step with
  | get returns =>
    have both := Shows.follows inv shown
    rw [returns] at both
    cases kept : Mm.kmemGetObj cachep m with
    | none =>
      simp only [kept] at both
      cases both
    | some result =>
      simp only [kept] at both
      cases both with
      | some both =>
        obtain ⟨same, lastShown⟩ := both
        dsimp only at same
        subst same
        exact ⟨_, .get kept, lastShown⟩
  | free isLive =>
    exact ⟨_, .free isLive trivial, Shows.freeObj inv shown isLive⟩

/-- Along a run the memory shows a state of `Slab` that keeps the invariant of the cache. -/
theorem Session.Reaches.follows {first : Session}
    (inv : Mm.Session.CacheInv total cachep ⟨m, first.live, first.slabs⟩)
    (counted : Mm.Session.Counted cachep ⟨m, first.live, first.slabs⟩)
    (shown : Shows cachep first.slabs m first.memory) (run : Reaches cachep first r) :
    ∃ after, Mm.Session.CacheInv total cachep ⟨after, r.live, r.slabs⟩ ∧
      Mm.Session.Counted cachep ⟨after, r.live, r.slabs⟩ ∧
      Shows cachep r.slabs after r.memory := by
  induction run with
  | refl => exact ⟨m, inv, counted, shown⟩
  | tail _ step ih =>
    obtain ⟨before, beforeInv, beforeCounted, beforeShown⟩ := ih
    obtain ⟨after, kept, afterShown⟩ := step.follows beforeInv beforeShown
    obtain ⟨afterInv, afterCounted⟩ := beforeInv.run beforeCounted (.single kept)
    exact ⟨after, afterInv, afterCounted, afterShown⟩

/-- In every state that the clients of a cache with objects of four bytes or more reach,
`kmem_get_obj` grows the cache once at most. -/
theorem kmemGetObj_boundedGrowth (zoneInv : start.zone.Inv total) (bounded : total < 2 ^ 20)
    (size : 4 ≤ objSize) (atMost : objSize ≤ 65516)
    (created : kmemCacheCreate (some name) objSize flags start = some (cachep, w))
    (run : Session.Reaches cachep (Session.opened cachep w) r)
    (pages : slabAlloc r.memory.zone ≠ none) : r.BoundedGrowth cachep := by
  obtain ⟨m, kept, shown⟩ := Shows.create zoneInv size created
  have same : (Session.opened cachep w).slabs = (m.caches cachep).freeList := by
    rw [Session.opened, shown.caches]
  obtain ⟨inv, -⟩ := kmemCacheCreate_inv zoneInv bounded size atMost kept
  have counted := kmemCacheCreate_counted zoneInv (by omega) kept
  obtain ⟨after, afterInv, ⟨afterPages, few⟩, afterShown⟩ :=
    run.follows (m := m) (by rw [same]; exact inv) (by rw [same]; exact counted)
      (by rw [same]; exact shown)
  have sameCaches : r.memory.caches = after.caches := afterShown.caches
  refine ⟨?_, ?_, ?_⟩
  · have both := afterShown.follows afterInv
    rcases afterInv.get_result with ⟨noPages, -⟩ | ⟨grant, next, returns, once, -⟩
    · rw [afterShown.zone] at pages
      exact absurd noPages pages
    rw [returns] at both
    generalize kmemGetObj cachep r.memory = stored at both ⊢
    cases both with
    | some both =>
      obtain ⟨sameGrant, lastShown⟩ := both
      dsimp only at sameGrant
      subst sameGrant
      refine ⟨_, _, rfl, once, fun null => ?_⟩
      rw [lastShown.caches]
      exact kmemGetObjRepeat_null returns null
  · rw [sameCaches]
    exact afterPages
  · rw [sameCaches]
    have exactly : (after.caches cachep).nrPages = 16 * r.slabs.length := afterPages
    have slabs : r.slabs.length ≤ 16 := few
    omega

end Run

def pairMemory : KmemMemory where
  zone := spareZone
  word := fun _ => 0
  caches := fun _ => newCache "" 0 0
  cacheChain := []

def pairStored : KmemMemory := ((kmemCacheCreate (some "pair") 30000 0 pairMemory).get rfl).2

def Session.drawn (cachep : Nat) (r : Session) : Session :=
  match kmemGetObj cachep r.memory with
  | none => r
  | some (grant, next) => r.granted grant next

theorem Session.step_drawn {cachep : Nat} {r : Session}
    (ran : (kmemGetObj cachep r.memory).isSome) : Step cachep r (r.drawn cachep) := by
  obtain ⟨⟨_, _⟩, res⟩ := isSome_iff_exists.mp ran
  rw [Session.drawn, res]
  exact Step.get res

/-- Two objects of one slab are taken and one is returned. -/
def pairReturned : Session :=
  (((Session.opened 0x1000000 pairStored).drawn 0x1000000).drawn 0x1000000).give 0x1000000
    0x1010000 0x1010020

theorem kmemGetObj_boundedGrowth_pair : pairReturned.BoundedGrowth 0x1000000 := by
  have created : kmemCacheCreate (some "pair") 30000 0 pairMemory = some (0x1000000, pairStored) :=
    (some_get (show (kmemCacheCreate (some "pair") 30000 0 pairMemory).isSome from rfl)).symm
  have drawn : Session.Reaches 0x1000000 (Session.opened 0x1000000 pairStored)
      (((Session.opened 0x1000000 pairStored).drawn 0x1000000).drawn 0x1000000) :=
    (Relation.ReflTransGen.single (Session.step_drawn rfl)).tail (Session.step_drawn rfl)
  exact kmemGetObj_boundedGrowth spareZone_inv (by decide) (by decide) (by decide) created
    (drawn.tail (.free (by decide))) (by decide)

/-! ## Objects of three bytes -/

/-- The ring of the sixteen-page blocks of a zone. -/
structure Stocked (z : Zone) (blocks : List Nat) : Prop where
  address : ∀ page, (z.buddy.pages page).address = page * pageSize
  ring : z.buddy.list defaultSlabPages = blocks
  counted : z.buddy.nrFree defaultSlabPages = blocks.length

theorem Stocked.slabAlloc {z : Zone} {page : Nat} {rest : List Nat}
    (stocked : Stocked z (page :: rest)) :
    ∃ next, slabAlloc z = some (page * pageSize, next) ∧ Stocked next rest := by
  have order : ¬ nrMemLists ≤ defaultSlabPages := by decide
  have free : 0 < z.buddy.nrFree defaultSlabPages := by
    rw [stocked.counted, length_cons]
    omega
  have taken : buddyListDel defaultSlabPages z.buddy =
      .ok (page, z.buddy.setQueue defaultSlabPages rest (-1)) := by
    rw [buddyListDel, if_neg order, stocked.ring, listGetHeadDel]
  refine ⟨⟨z.buddy.setQueue defaultSlabPages rest (-1),
    ⟨mapNr (page * pageSize), defaultSlabPages⟩ :: z.outstanding⟩, ?_, ?_⟩
  · have ran : getFreePagesRepeat nrMemLists defaultSlabPages z.buddy =
        some (.address (page * pageSize), z.buddy.setQueue defaultSlabPages rest (-1)) := by
      rw [nrMemLists, getFreePagesRepeat, if_pos free, taken]
      simp [stocked.address]
    simp [Mm.slabAlloc, Zone.getPages, getFreePages, order, ran, GetExit.value]
  · refine ⟨stocked.address, by simp, ?_⟩
    simp [stocked.counted]

section Rounds

variable {w chosen taken : KmemMemory} {cachep slabp obj rounds : Nat}

theorem kmemGetObjRepeat_found (choice : kmemGetSlab cachep w = (slabp, chosen))
    (found : slabGetObj cachep slabp chosen = (obj, taken)) (ne0 : obj ≠ 0) :
    kmemGetObjRepeat cachep (rounds + 1) w = some (⟨obj, slabp, []⟩, taken) := by
  simp [kmemGetObjRepeat, choice, found, ne0]

theorem kmemGetObjRepeat_grows {ptr : Nat} {zone : Zone} {code : Int} {larger : KmemMemory}
    (choice : kmemGetSlab cachep w = (slabp, w)) (nothing : slabGetObj cachep slabp w = (0, w))
    (few : (w.caches cachep).nrPages < 256) (pages : slabAlloc w.zone = some (ptr, zone))
    (grows : cacheGrow cachep w = some (code, larger)) :
    kmemGetObjRepeat cachep (rounds + 1) w = (kmemGetObjRepeat cachep rounds larger).map
      fun (grant, last) => ({ grant with grown := ptr :: grant.grown }, last) := by
  have limit : power maxSlabPages = 256 := by decide
  simp [kmemGetObjRepeat, choice, nothing, limit, few.not_ge, pages, grows]

theorem cacheGrow_stored {ptr : Nat} {zone : Zone} (cacheNe : cachep ≠ 0)
    (sized : (w.caches cachep).objSize ≠ 0) (pages : slabAlloc w.zone = some (ptr, zone))
    (ne0 : ptr ≠ 0) :
    ∃ larger, cacheGrow cachep w = some (0, larger) ∧ larger.zone = zone ∧
      larger.caches cachep = (w.caches cachep).grown ptr ∧
      larger.word = put w.word ptr (slabEstimate (w.caches cachep).objSize)
        (slabInit ((w.caches cachep).grown ptr) (w.slab ptr) ((ptr + sizeofSlab) % wordSize)) := by
  have kept := cacheGrow_eq (m := w.kmem) cacheNe sized pages ne0
  refine ⟨_, by rw [cacheGrow, kept]; rfl, rfl, by simp [keep, kmem], ?_⟩
  simp [keep, kmem, pages, KmemCache.grown]

theorem kmemGetSlab_stuck (cacheNe : cachep ≠ 0)
    (stuck : (w.caches cachep).partialList = [slabp]) : kmemGetSlab cachep w = (slabp, w) := by
  have ring : (w.kmem.caches cachep).partialList = [] ++ [slabp] := stuck
  rw [kmemGetSlab, kmemGetSlab_partial cacheNe ring]
  rfl

theorem kmemGetSlab_moves {rest : List Nat} (cacheNe : cachep ≠ 0)
    (empty : (w.caches cachep).partialList = [])
    (ring : (w.caches cachep).freeList = slabp :: rest) :
    ∃ chosen, kmemGetSlab cachep w = (slabp, chosen) ∧ chosen.zone = w.zone ∧
      chosen.word = w.word ∧ chosen.caches cachep =
        { w.caches cachep with freeList := rest, partialList := [slabp] } := by
  have kept := kmemGetSlab_free (m := w.kmem) cacheNe empty ring
  refine ⟨(kmemGetSlab cachep w).2, ?_, rfl, rfl, ?_⟩ <;> rw [kmemGetSlab, kept]
  simp [kmem]

theorem slabGetObj_stuck (atEnd : w.word (slabp + 12) = bufctlEnd) :
    slabGetObj cachep slabp w = (0, w) := by
  have exhausted : (w.kmem.slabs slabp).free = bufctlEnd := atEnd
  rw [slabGetObj, slabGetObj_exhausted exhausted]
  exact congrArg (Prod.mk 0) keep_kmem

/-- A partial slab whose `free` is BUFCTL_END is found on every round: the cache grows until it
counts 256 pages. -/
theorem kmemGetObjRepeat_stuck {extra growths : Nat} {blocks : List Nat} (cacheNe : cachep ≠ 0)
    (sized : (w.caches cachep).objSize ≠ 0) (stuck : (w.caches cachep).partialList = [slabp])
    (atEnd : w.word (slabp + 12) = bufctlEnd) (stocked : Stocked w.zone blocks)
    (behind : ∀ page ∈ blocks, slabp + 4 < page * pageSize) (enough : growths ≤ blocks.length)
    (pages : (w.caches cachep).nrPages + 16 * growths = 256) :
    ∃ last, kmemGetObjRepeat cachep (extra + growths + 1) w =
      some (⟨0, slabp, (blocks.take growths).map (· * pageSize)⟩, last) := by
  have limit : power maxSlabPages = 256 := by decide
  induction growths generalizing w blocks with
  | zero =>
    have full : power maxSlabPages ≤ (w.caches cachep).nrPages := by omega
    simp [kmemGetObjRepeat, kmemGetSlab_stuck cacheNe stuck, slabGetObj_stuck atEnd, full]
  | succ growths ih =>
    obtain ⟨page, rest, rfl⟩ := exists_cons_of_length_pos (Nat.zero_lt_of_lt enough)
    have below := behind page mem_cons_self
    obtain ⟨zone, alloc, after⟩ := stocked.slabAlloc
    obtain ⟨larger, grows, rfl, cache, words⟩ := cacheGrow_stored cacheNe sized alloc (by omega)
    have kept : larger.word (slabp + 12) = bufctlEnd := by
      rw [words, put_before (by omega), atEnd]
    have counted : (larger.caches cachep).nrPages + 16 * growths = 256 := by
      rw [cache]
      simp only [KmemCache.grown, defaultSlabPages, power, wordSize]
      omega
    obtain ⟨last, res⟩ := ih (by rw [cache]; exact sized) (by rw [cache]; exact stuck) kept after
      (fun page member => behind page (mem_cons_of_mem _ member)) (Nat.le_of_succ_le_succ enough)
      counted
    refine ⟨last, ?_⟩
    rw [kmemGetObjRepeat_grows (kmemGetSlab_stuck cacheNe stuck) (slabGetObj_stuck atEnd)
      (by omega) alloc grows, ← Nat.add_assoc, res]
    simp

theorem slabGetObj_stored (cacheNe : cachep ≠ 0) (slabNe : slabp ≠ 0)
    (unused : (w.slab slabp).free ≠ bufctlEnd) :
    ∃ taken, slabGetObj cachep slabp w =
        (indexToObj (w.caches cachep) (w.slab slabp) (w.slab slabp).free, taken) ∧
      taken.zone = w.zone ∧ taken.word = put w.word slabp 0 (w.slab slabp).taken ∧
      taken.caches cachep = (w.caches cachep).afterTake slabp (w.slab slabp).taken.inuse := by
  have kept := slabGetObj_eq (m := w.kmem) cacheNe slabNe unused
  refine ⟨(slabGetObj cachep slabp w).2, ?_, ?_, ?_, ?_⟩ <;> rw [slabGetObj, kept]
  · rfl
  · rfl
  · simp [keep, kmem]
  · simp [keep, kmem]

theorem slabFreeObj_stored {objnr objp : Nat} (cacheNe : cachep ≠ 0) (slabNe : slabp ≠ 0)
    (objNotNull : objp ≠ 0) (index : objToIndex (w.caches cachep) (w.slab slabp) objp = objnr)
    (atMost : objnr ≤ (w.caches cachep).objNum) :
    (slabFreeObj cachep slabp objp w).2.zone = w.zone ∧
      (slabFreeObj cachep slabp objp w).2.word =
        put w.word slabp (objnr + 1) ((w.slab slabp).returned objnr) ∧
      (slabFreeObj cachep slabp objp w).2.caches cachep =
        (w.caches cachep).afterReturn slabp ((w.slab slabp).returned objnr).inuse := by
  have kept := slabFreeObj_eq (m := w.kmem) cacheNe slabNe objNotNull index atMost
  refine ⟨?_, ?_, ?_⟩ <;> rw [slabFreeObj, kept, index]
  · rfl
  · simp [keep, kmem]
  · simp [keep, kmem]

end Rounds

/-- A page for the `kmem_cache` and sixteen blocks of sixteen pages are free. -/
def tinyZone : Zone where
  buddy :=
    { pages := fun page => ⟨page * pageSize, sysRam⟩
      buddyList := fun order =>
        if order = 0 then ⟨[4096], 1⟩
        else if order = 4 then ⟨(List.range 16).map (4112 + 16 * ·), 16⟩
        else ⟨[], 0⟩ }
  outstanding := [⟨4097, 0⟩, ⟨4098, 1⟩, ⟨4100, 2⟩, ⟨4104, 3⟩]

theorem tinyZone_inv : tinyZone.Inv 4368 where
  describes := ⟨fun _ _ => rfl, fun _ _ _ => show sysRam &&& sysRam ≠ 0 by decide, by decide⟩
  counted := by
    unfold Buddy.Counted
    decide
  aligned := by
    unfold Buddy.Aligned
    decide
  heldOrder := by decide
  heldAligned := by decide
  tiles := by
    unfold Library.Tiling.Tiles
    set_option maxRecDepth 20000 in decide

def tinyMemory : KmemMemory := { pairMemory with zone := tinyZone }

def tinyStored : KmemMemory := ((kmemCacheCreate (some "tiny") 3 0 tinyMemory).get rfl).2

theorem tinyStored_eq :
    kmemCacheCreate (some "tiny") 3 0 tinyMemory = some (0x1000000, tinyStored) :=
  (some_get (show (kmemCacheCreate (some "tiny") 3 0 tinyMemory).isSome from rfl)).symm

/-- The first `k` of the 21838 objects of the slab at 0x1010000 are taken. -/
structure Filling (k : Nat) (w : KmemMemory) : Prop where
  cache : w.caches 0x1000000 = { newCache "tiny" 3 0 with
    objNum := 21838
    nrPages := 16
    nrFrees := 21838
    partialList := if k = 0 ∨ k = 21838 then [] else [0x1010000]
    fullList := if k = 21838 then [0x1010000] else []
    freeList := if k = 0 then [0x1010000] else [] }
  stocked : Stocked w.zone ((List.range 15).map (4128 + 16 * ·))
  sMem : (w.slab 0x1010000).sMem = 0x1025550
  free : (w.slab 0x1010000).free = if k = 21838 then bufctlEnd else k
  inuse : (w.slab 0x1010000).inuse = k
  bufctl : ∀ i < 21838, (w.slab 0x1010000).bufctl i = if i + 1 = 21838 then bufctlEnd else i + 1

theorem tinyStored_filling : Filling 0 tinyStored where
  cache := rfl
  stocked := ⟨fun _ => rfl, rfl, rfl⟩
  sMem := by decide
  free := by decide
  inuse := by decide
  bufctl i lt := by
    have words : tinyStored.word = put (fun _ => 0) 0x1010000 21838
        (slabInit { newCache "tiny" 3 0 with objNum := 21838, nrPages := 16 }
          ⟨0, 0, 0, fun _ => 0⟩ 0x1010014) := rfl
    simp only [KmemMemory.slab, words]
    rw [put_entry, if_pos lt]
    simp [slabInit, lt]

section Filling

variable {k : Nat} {w : KmemMemory}

theorem Filling.choice (filling : Filling k w) (room : k < 21838) : ∃ chosen,
    kmemGetSlab 0x1000000 w = (0x1010000, chosen) ∧ chosen.zone = w.zone ∧
      chosen.word = w.word ∧ chosen.caches 0x1000000 =
        { w.caches 0x1000000 with freeList := [], partialList := [0x1010000] } := by
  by_cases first : k = 0
  · apply kmemGetSlab_moves (by decide) <;> simp [filling.cache, first]
  · have ring : (w.caches 0x1000000).partialList = [0x1010000] := by
      simp [filling.cache, first, room.ne]
    refine ⟨w, kmemGetSlab_stuck (by decide) ring, rfl, rfl, ?_⟩
    simp [filling.cache, first, room.ne]

theorem Filling.step (filling : Filling k w) (room : k < 21838) : ∃ next,
    kmemGetObj 0x1000000 w = some (⟨0x1025550 + 3 * k, 0x1010000, []⟩, next) ∧
      Filling (k + 1) next := by
  obtain ⟨chosen, choice, zone, words, cache⟩ := filling.choice room
  have sameSlab : chosen.slab 0x1010000 = w.slab 0x1010000 := by simp only [KmemMemory.slab, words]
  have free : (w.slab 0x1010000).free = k := by simp [filling.free, room.ne]
  have used : (w.slab 0x1010000).taken.inuse = k + 1 := by
    simp only [Slab.taken, filling.inuse, wordSize]
    omega
  have unused : (chosen.slab 0x1010000).free ≠ bufctlEnd := by
    rw [sameSlab, free, bufctlEnd, wordSize]
    omega
  obtain ⟨next, found, sameZone, stored, after⟩ := slabGetObj_stored
    (by decide : (0x1000000 : Nat) ≠ 0) (by decide : (0x1010000 : Nat) ≠ 0) unused
  have object : indexToObj (chosen.caches 0x1000000) (chosen.slab 0x1010000)
      (chosen.slab 0x1010000).free = 0x1025550 + 3 * k := by
    rw [sameSlab, free]
    simp only [indexToObj, filling.sMem, cache, filling.cache, newCache, wordSize]
    omega
  rw [object] at found
  rw [sameSlab] at stored after
  rw [words] at stored
  rw [used, cache] at after
  have kept : Agree 21838 (next.slab 0x1010000) (w.slab 0x1010000).taken := by
    apply put_agree stored
    intro i _ _
    rfl
  refine ⟨next, kmemGetObjRepeat_found choice found (by omega), ?_, ?_, ?_, ?_, ?_, ?_⟩
  · rw [after, KmemCache.afterTake]
    by_cases last : k + 1 = 21838 <;>
      simp [last, filling.cache, room.ne, newCache, KmemCache.unlink, listDel, listAddHead]
  · rw [sameZone, zone]
    exact filling.stocked
  · rw [kept.sMem]
    exact filling.sMem
  · rw [kept.free]
    simp [Slab.taken, free, filling.bufctl k room]
  · rw [kept.inuse, used]
  · intro i lt
    rw [kept.bufctl i lt]
    exact filling.bufctl i lt

theorem reached_filling (atMost : k ≤ 21838) : ∃ r : Session,
    Session.Reaches 0x1000000 (Session.opened 0x1000000 tinyStored) r ∧ Filling k r.memory ∧
      ∀ i < k, 0x1025550 + 3 * i ∈ r.live 0x1010000 := by
  induction k with
  | zero => exact ⟨_, .refl, tinyStored_filling, by simp⟩
  | succ k ih =>
    obtain ⟨r, run, filling, held⟩ := ih (by omega)
    obtain ⟨next, ran, after⟩ := filling.step atMost
    refine ⟨_, run.tail (.get ran), after, ?_⟩
    intro i lt
    simp only [Session.granted]
    rw [if_neg (by omega), update_self]
    rcases Nat.lt_succ_iff_lt_or_eq.mp lt with old | rfl
    · exact mem_cons_of_mem _ (held i old)
    · exact mem_cons_self

theorem Filling.second (filling : Filling 21838 w) : ∃ next,
    kmemGetObj 0x1000000 w = some (⟨0x1035550, 0x1020000, [0x1020000]⟩, next) ∧
      (∀ addr < 0x1020000, next.word addr = w.word addr) ∧
      next.caches 0x1000000 = { (w.caches 0x1000000).grown 0x1020000 with
        freeList := [], partialList := [0x1020000] } ∧
      Stocked next.zone ((List.range 14).map (4144 + 16 * ·)) := by
  have cache : w.kmem.caches 0x1000000 = _ := filling.cache
  have empty : kmemGetSlab 0x1000000 w = (0, w) := by
    rw [kmemGetSlab, kmemGetSlab_none (by simp [cache]) (by simp [cache])]
    rfl
  have nothing : slabGetObj 0x1000000 0 w = (0, w) := by
    simp [slabGetObj, Mm.slabGetObj, keep_kmem]
  have few : (w.caches 0x1000000).nrPages < 256 := by
    rw [filling.cache]
    decide
  have stock : Stocked w.zone (4128 :: (List.range 14).map (4144 + 16 * ·)) := filling.stocked
  obtain ⟨zone, pages, stocked⟩ := stock.slabAlloc
  obtain ⟨larger, grows, rfl, grown, words⟩ := cacheGrow_stored
    (by decide : (0x1000000 : Nat) ≠ 0) (by simp [filling.cache, newCache]) pages (by decide)
  have ring : (larger.caches 0x1000000).freeList = 0x1020000 :: [] := by
    simp [grown, KmemCache.grown, filling.cache, pageSize]
  obtain ⟨chosen, choice, zone, sameWords, cache⟩ :=
    kmemGetSlab_moves (by decide) (by simp [grown, KmemCache.grown, filling.cache]) ring
  rw [grown] at cache
  have number : (chosen.caches 0x1000000).objNum = 21838 := by
    simp [cache, KmemCache.grown, filling.cache, newCache, slabEstimate_eq]
  have fresh : Agree 1 (chosen.slab 0x1020000)
      (slabInit ((w.caches 0x1000000).grown 0x1020000) (w.slab 0x1020000) 0x1020014) := by
    apply put_agree (sameWords.trans words)
    intro i behind one
    simp [filling.cache, newCache, slabEstimate_eq] at behind
    omega
  have sMem : (chosen.slab 0x1020000).sMem = 0x1035550 := by
    rw [fresh.sMem]
    simp [slabInit, KmemCache.grown, filling.cache, newCache, slabEstimate_eq, sizeofBufctl,
      wordSize]
  have free : (chosen.slab 0x1020000).free = 0 := fresh.free
  obtain ⟨taken, found, takenZone, takenWords, takenCache⟩ := slabGetObj_stored
    (by decide : (0x1000000 : Nat) ≠ 0) (by decide : (0x1020000 : Nat) ≠ 0)
    (by rw [free]; decide)
  rw [show indexToObj _ _ _ = 0x1035550 by simp [indexToObj, sMem, free, wordSize]] at found
  refine ⟨taken, ?_, ?_, ?_, ?_⟩
  · rw [kmemGetObj, kmemGetObjRepeat_grows empty nothing few pages grows,
      kmemGetObjRepeat_found choice found (by decide)]
    rfl
  · intro addr before
    rw [takenWords, put_before (by omega), sameWords, words, put_before (by rw [pageSize]; omega)]
  · have inuse : (chosen.slab 0x1020000).taken.inuse ≠ (chosen.caches 0x1000000).objNum := by
      rw [number]
      simp [Slab.taken, fresh.inuse, slabInit, KmemCache.grown, filling.cache, newCache,
        slabEstimate_eq, wordSize]
    rw [takenCache, KmemCache.afterTake, if_neg inuse, cache]
    rfl
  · rw [takenZone, zone]
    exact stocked

end Filling

/-- Object 16382 of a full slab returns to it, with a second slab in use behind: the index of
the object is the word `free` of the second slab. The next call grows the cache 14 times and
returns NULL. -/
theorem tiny_grows_unbounded : ∃ (r : Session) (grant : Grant) (next : KmemMemory),
    tinyMemory.zone.Inv 4368 ∧
      kmemCacheCreate (some "tiny") 3 0 tinyMemory = some (0x1000000, tinyStored) ∧
      Session.Reaches 0x1000000 (Session.opened 0x1000000 tinyStored) r ∧
      kmemGetObj 0x1000000 r.memory = some (grant, next) ∧ grant.obj = 0 ∧
      grant.grown.length = 14 ∧ ¬ r.BoundedGrowth 0x1000000 := by
  obtain ⟨r, run, filling, held⟩ := reached_filling (le_refl 21838)
  obtain ⟨second, returns, kept, cache, stocked⟩ := filling.second
  set both := r.granted ⟨0x1035550, 0x1020000, [0x1020000]⟩ second with bothDef
  have isLive : 0x1025550 + 3 * 16382 ∈ both.live 0x1010000 := by
    simpa [bothDef, Session.granted] using held 16382 (by decide)
  have number : (second.caches 0x1000000).objNum = 21838 := by
    simp [cache, filling.cache, KmemCache.grown, newCache, slabEstimate_eq]
  have size : (second.caches 0x1000000).objSize = 3 := by
    simp [cache, filling.cache, KmemCache.grown, newCache]
  have sMem : (second.slab 0x1010000).sMem = 0x1025550 := (kept _ (by decide)).trans filling.sMem
  have free : (second.slab 0x1010000).free = bufctlEnd := (kept _ (by decide)).trans filling.free
  have inuse : (second.slab 0x1010000).inuse = 21838 := (kept _ (by decide)).trans filling.inuse
  have index : objToIndex (second.caches 0x1000000) (second.slab 0x1010000)
      (0x1025550 + 3 * 16382) = 16382 := by
    simp [objToIndex, sMem, size, toSigned, wordSize]
  obtain ⟨zone, words, after⟩ := slabFreeObj_stored (by decide : (0x1000000 : Nat) ≠ 0)
    (by decide : (0x1010000 : Nat) ≠ 0) (by decide) index (by rw [number]; decide)
  have atEnd : (slabFreeObj 0x1000000 0x1010000 (0x1025550 + 3 * 16382) second).2.word
      (0x1020000 + 12) = bufctlEnd := by
    rw [words]
    refine (put_entry 16382).trans ?_
    simp [Slab.returned, free]
  have shape : (slabFreeObj 0x1000000 0x1010000 (0x1025550 + 3 * 16382) second).2.caches
      0x1000000 = second.caches 0x1000000 := by
    rw [after]
    simp [KmemCache.afterReturn, Slab.returned, inuse, wordSize]
  obtain ⟨last, stuck⟩ := @kmemGetObjRepeat_stuck
    (slabFreeObj 0x1000000 0x1010000 (0x1025550 + 3 * 16382) second).2 0x1000000 0x1020000 2 14 _
    (by decide) (by rw [shape, size]; decide) (by rw [shape, cache]) atEnd (zone ▸ stocked)
    (by decide) (by decide) (by rw [shape, cache, filling.cache]; decide)
  refine ⟨both.give 0x1000000 0x1010000 (0x1025550 + 3 * 16382), _, last, tinyZone_inv,
    tinyStored_eq, (run.tail (.get returns)).tail (.free isLive), stuck, rfl, by decide, ?_⟩
  intro growth
  obtain ⟨_, _, result, once, -⟩ := growth.served
  obtain ⟨rfl, -⟩ := Prod.mk.inj (some.inj (stuck.symm.trans result))
  exact absurd once (by decide)

end KmemMemory

end PrettyOS.Mm
