import PrettyOS.Mm.FrameInit
import PrettyOS.Mm.SlabLists

/-!
Contract: the page allocator from `init_mem` on.
-/

namespace PrettyOS.Mm

open Lib List Option Multiset Prod
open Library.Tiling

def initMem (memSize : UInt32) (m : Kmem) : Option Kmem :=
  (initKmemCache { m with
    zone := ⟨initMemTidy memSize m.zone.buddy, []⟩
    cacheChain := [] }).map Prod.snd

structure Zone.Lasting (lasts : Zone → Prop) : Prop where
  counted : ∀ {z}, lasts z → z.buddy.Counted
  step : ∀ {z next}, lasts z → Step z next → lasts next

section Boot

variable {lasts : Zone → Prop} {cachep objSize flags : Nat} {name : Option String} {m next : Kmem}
  {code : Int}

lemma Zone.Lasting.getPages {order : Nat} {z next : Zone} {exit : GetExit}
    (lasting : Lasting lasts) (now : lasts z) (lt : order < nrMemLists)
    (ran : z.getPages order = some (exit, next)) : lasts next := by
  apply lasting.step now
  exact .get lt (available_of_getPages (lasting.counted now) lt ran) ran

section

variable (lasting : Zone.Lasting lasts) (now : lasts m.zone)
include lasting now

lemma cacheGrow_lasts (grows : cacheGrow cachep m = some (code, next)) : lasts next.zone := by
  unfold cacheGrow at grows
  split_ifs at grows with refused
  · obtain ⟨-, rfl⟩ := mk.inj (some.inj grows)
    exact now
  split at grows
  · cases grows
  rename_i ptr zone pages
  obtain ⟨⟨_, _⟩, ran, same⟩ := map_eq_some_iff.mp pages
  obtain ⟨-, rfl⟩ := mk.inj same
  obtain ⟨-, rfl⟩ := mk.inj (some.inj grows)
  have after := lasting.getPages now (by decide) ran
  unfold kmemAddSlab
  split_ifs <;> exact after

lemma kmemCacheAlloc_lasts
    (allocates : kmemCacheAlloc m = some (cachep, next)) : lasts next.zone := by
  unfold kmemCacheAlloc at allocates
  rw [if_neg (by decide)] at allocates
  obtain ⟨⟨_, _⟩, ran, same⟩ := map_eq_some_iff.mp allocates
  obtain ⟨-, rfl⟩ := mk.inj same
  exact lasting.getPages now (by decide) ran

lemma kmemCacheCreate_lasts
    (created : kmemCacheCreate name objSize flags m = some (cachep, next)) : lasts next.zone := by
  unfold kmemCacheCreate at created
  split at created
  · obtain ⟨-, rfl⟩ := mk.inj (some.inj created)
    exact now
  split_ifs at created
  · obtain ⟨-, rfl⟩ := mk.inj (some.inj created)
    exact now
  split at created
  · cases created
  rename_i ptr allocated allocates
  have after := kmemCacheAlloc_lasts lasting now allocates
  split_ifs at created
  · obtain ⟨-, rfl⟩ := mk.inj (some.inj created)
    exact after
  split at created
  · cases created
  rename_i growCode grown grows
  obtain ⟨-, rfl⟩ := mk.inj (some.inj created)
  have grownLasts := cacheGrow_lasts lasting (by exact after) grows
  obtain ⟨_, link⟩ := kmemChainAdd_eq ptr grown
  rw [link]
  exact grownLasts

lemma initKmemCaches_lasts {position : Int} {caches : List (String × Nat)}
    (ran : initKmemCaches position caches m = some (code, next)) : lasts next.zone := by
  induction caches generalizing position m with
  | nil =>
    obtain ⟨-, rfl⟩ := mk.inj (some.inj ran)
    exact now
  | cons first rest ih =>
    obtain ⟨_, _⟩ := first
    rw [initKmemCaches] at ran
    split at ran
    · cases ran
    rename_i cachep created res
    have after := kmemCacheCreate_lasts lasting now res
    split_ifs at ran
    · obtain ⟨-, rfl⟩ := mk.inj (some.inj ran)
      exact after
    · exact ih after ran

end

end Boot

lemma initMem_lasts {lasts : Zone → Prop} {memSize : UInt32} {m booted : Kmem}
    (lasting : Zone.Lasting lasts) (tidied : lasts ⟨initMemTidy memSize m.zone.buddy, []⟩)
    (boots : initMem memSize m = some booted) : lasts booted.zone := by
  obtain ⟨⟨_, _⟩, ran, rfl⟩ := map_eq_some_iff.mp boots
  exact initKmemCaches_lasts lasting (by exact tidied) ran

lemma initMem_inv {memSize : UInt32} {m booted : Kmem} (zeroed : m.zone.buddy.Zeroed)
    (boots : initMem memSize m = some booted) : booted.zone.Inv (pageFns memSize) :=
  initMem_lasts ⟨fun inv => inv.counted, fun inv step => inv.step step⟩
    (initMemTidy_inv memSize zeroed) boots

structure Zone.Stocked (total used : Nat) (z : Zone) : Prop where
  inv : z.Inv total
  scarce : ∀ k < defaultSlabPages, (z.buddy.list k).length ≤ 1
  held : (cellsOf z.outstanding).length = used

section Stock

variable {total used : Nat} {z : Zone}

lemma Zone.Stocked.available (stocked : z.Stocked total used)
    (room : used + 2 ^ defaultSlabPages ≤ total - firstFrame) : z.Available defaultSlabPages := by
  by_contra unavailable
  have empty : ∀ k, defaultSlabPages ≤ k → k < nrMemLists → z.buddy.list k = [] := by
    intro k low high
    by_contra ne
    exact unavailable ⟨k, low, high, ne⟩
  have frames := congrArg card (Zone.tiles_iff_frames.mp stocked.inv.tiles)
  rw [Zone.frames, card_add, coe_card, coe_card, length_range', stocked.held] at frames
  have few : z.buddy.freeFrames.card ≤ 15 := by
    have scarce := stocked.scarce
    rw [defaultSlabPages] at scarce empty
    simp only [Buddy.freeFrames, familyCells, nrMemLists, Finset.sum_range_succ,
      Finset.sum_range_zero, card_add, card_orderCells, empty 4 (by decide) (by decide),
      empty 5 (by decide) (by decide), empty 6 (by decide) (by decide),
      empty 7 (by decide) (by decide), empty 8 (by decide) (by decide),
      empty 9 (by decide) (by decide)]
    have zero := scarce 0 (by decide)
    have one := scarce 1 (by decide)
    have two := scarce 2 (by decide)
    have three := scarce 3 (by decide)
    simp
    omega
  rw [defaultSlabPages] at room
  omega

lemma Zone.Stocked.getPages (stocked : z.Stocked total used) {order : Nat}
    (lt : order < nrMemLists) (available : z.Available order) :
    ∃ page zone, z.getPages order = some (.address (page * pageSize), zone) ∧
      page * pageSize ≠ 0 ∧ zone.Stocked total (used + 2 ^ order) := by
  obtain ⟨page, _, ran, after, lengths⟩ := stocked.inv.getPages lt available
  have bounds := after.tiles.start_bounds (mem_append_right _ mem_cons_self)
  have pos : 0 < page := lt_of_lt_of_le (by decide) bounds.1
  refine ⟨page, _, ran, Nat.mul_ne_zero pos.ne' (by decide), after, ?_, ?_⟩
  · intro k low
    have scarce := stocked.scarce k low
    have bound := lengths k
    exact bound.trans (max_le le_rfl scarce)
  · have held := stocked.held
    simp only [cellsOf, flatMap_cons, length_append, Block.cells, length_range'] at held ⊢
    omega

end Stock

lemma kmemCacheCreate_returns {total used objSize flags : Nat} {m : Kmem} (name : String)
    (stocked : m.zone.Stocked total used) (sized : objSize ≠ 0)
    (room : used + 17 ≤ total - firstFrame) :
    ∃ cachep next, kmemCacheCreate (some name) objSize flags m = some (cachep, next) ∧
      cachep ≠ 0 ∧ next.zone.Stocked total (used + 17) := by
  have onePage : sizeofKmemCache / pageSize = 0 := by decide
  have slabFree := stocked.available (by rw [defaultSlabPages]; omega)
  have pageFree : m.zone.Available 0 := by
    obtain ⟨k, -, high, ne⟩ := slabFree
    exact ⟨k, Nat.zero_le k, high, ne⟩
  obtain ⟨page, zone, pageReturns, ne0, afterPage⟩ := stocked.getPages (by decide) pageFree
  obtain ⟨slabPage, later, slabReturns, slabNe, afterSlab⟩ :=
    afterPage.getPages (by decide) (afterPage.available (by rw [defaultSlabPages]; omega))
  have pages : slabAlloc zone = some (slabPage * pageSize, later) := by
    simp [slabAlloc, slabReturns, GetExit.value]
  obtain ⟨grown, grows, grownZone⟩ : ∃ grown,
      cacheGrow (page * pageSize) ({ m with zone }.setCache (page * pageSize)
        (newCache name objSize flags)) = some (0, grown) ∧ grown.zone = later :=
    ⟨_, cacheGrow_eq ne0 (by simpa [newCache] using sized) pages slabNe, rfl⟩
  obtain ⟨chain, link⟩ := kmemChainAdd_eq (page * pageSize) grown
  refine ⟨page * pageSize, { grown with cacheChain := chain }, ?_, ne0, ?_⟩
  · rw [kmemCacheCreate, if_neg sized, kmemCacheAlloc, if_neg (by decide), onePage, pageReturns]
    simp only [map_some, GetExit.value, if_neg ne0, grows, link]
  change grown.zone.Stocked total (used + 17)
  rw [grownZone]
  exact afterSlab

lemma initKmemCaches_returns {total used : Nat} {position : Int} {m : Kmem}
    {caches : List (String × Nat)} (stocked : m.zone.Stocked total used)
    (sized : ∀ cache ∈ caches, cache.2 ≠ 0)
    (room : used + 17 * caches.length ≤ total - firstFrame) :
    ∃ next, initKmemCaches position caches m = some (0, next) ∧
      next.zone.Stocked total (used + 17 * caches.length) := by
  induction caches generalizing used position m with
  | nil => exact ⟨m, rfl, stocked⟩
  | cons first rest ih =>
    obtain ⟨name, size⟩ := first
    rw [length_cons] at room
    obtain ⟨_, _, ran, ne0, after⟩ :=
      @kmemCacheCreate_returns total used size 0 m name stocked
        (sized (name, size) mem_cons_self) (by omega)
    rw [initKmemCaches, ran]
    simp only [if_neg ne0]
    obtain ⟨next, res, last⟩ := ih after
      (fun cache mem => sized cache (mem_cons_of_mem _ mem)) (by omega)
    refine ⟨next, res, ?_⟩
    rw [length_cons, Nat.mul_add_one, Nat.add_comm _ 17, ← Nat.add_assoc]
    exact last

lemma initMem_returns {memSize : UInt32} {m : Kmem} (zeroed : m.zone.buddy.Zeroed)
    (room : firstFrame + 85 ≤ pageFns memSize) :
    ∃ booted, initMem memSize m = some booted ∧ booted.zone.Stocked (pageFns memSize) 85 := by
  have loop := initMemFrames_frameLoop memSize zeroed
  obtain ⟨-, lengths⟩ := loop.progression (Nat.le_of_lt (pageFns_lt memSize))
  have stocked : Zone.Stocked (pageFns memSize) 0 ⟨initMemTidy memSize m.zone.buddy, []⟩ := by
    refine ⟨initMemTidy_inv memSize zeroed, fun k low => ?_, rfl⟩
    rw [defaultSlabPages] at low
    have length := lengths k (by rw [nrMemLists]; omega)
    rw [leftover, if_pos (by rw [nrMemLists]; omega)] at length
    change ((buddyListTidy (initMemFrames memSize m.zone.buddy)).list k).length ≤ 1
    omega
  obtain ⟨booted, ran, last⟩ := @initKmemCaches_returns _ _ 1
    { m with zone := ⟨initMemTidy memSize m.zone.buddy, []⟩, cacheChain := [] } initialCaches
    stocked (by decide) (by
      have five : initialCaches.length = 5 := rfl
      omega)
  exact ⟨booted, by rw [initMem, initKmemCache, ran, map_some], last⟩

/-- From the state `init_mem` leaves on, whatever is requested and returned: counters,
alignment and the partition of the frames behind low memory hold, and a request that
some ring can serve returns a block. -/
theorem initMem_run_conserves {memSize : UInt32} {m booted : Kmem} {z : Zone}
    (zeroed : m.zone.buddy.Zeroed) (boots : initMem memSize m = some booted)
    (run : booted.zone.Reaches z) :
    z.buddy.Counted ∧ z.buddy.Aligned ∧ (z.buddy.freeBlocks ++ z.outstanding).Pairwise Block.Apart ∧
      (∀ frame, (∃ block ∈ z.buddy.freeBlocks ++ z.outstanding, frame ∈ block.cells) ↔
        firstFrame ≤ frame ∧ frame < pageFns memSize) ∧
      ∀ order < nrMemLists, z.Available order →
        ∃ addr next, z.getPages order = some (.address addr, next) := by
  have inv := (initMem_inv zeroed boots).reaches run
  refine ⟨inv.counted, inv.aligned, inv.tiles.apart, inv.tiles.cover, ?_⟩
  intro order inRange available
  obtain ⟨_, buddy, returns, -⟩ := inv.getPages inRange available
  exact ⟨_, _, returns⟩

def blankKmem : Kmem where
  zone := ⟨blankBuddy, []⟩
  slabs := fun _ => ⟨0, 0, 0, fun _ => 0⟩
  caches := fun _ => newCache "" 0 0
  cacheChain := []

/-- A machine with 32 MB boots, gives out sixteen pages and takes them back. -/
lemma initMem_requests_32MB : ∃ booted page drawn, initMem 0x2000000 blankKmem = some booted ∧
    booted.zone.getPages 4 = some (.address (page * pageSize), drawn) ∧
    booted.zone.Reaches (drawn.putPages ⟨page, 4⟩) := by
  obtain ⟨booted, boots, stocked⟩ :=
    @initMem_returns 0x2000000 blankKmem (fun _ => rfl) (by decide)
  have available := stocked.available (by decide)
  obtain ⟨page, _, returns, -⟩ := stocked.inv.getPages (by decide) available
  exact ⟨booted, page, _, boots, returns,
    (Relation.ReflTransGen.single (.get (by decide) available returns)).tail
      (.free mem_cons_self)⟩

theorem initMem_conserves_32MB : ∃ booted page drawn, initMem 0x2000000 blankKmem = some booted ∧
    booted.zone.getPages 4 = some (.address (page * pageSize), drawn) ∧
    (drawn.putPages ⟨page, 4⟩).buddy.Counted ∧ (drawn.putPages ⟨page, 4⟩).buddy.Aligned := by
  obtain ⟨booted, page, drawn, boots, returns, run⟩ := initMem_requests_32MB
  have conserved := initMem_run_conserves (fun _ => rfl) boots run
  exact ⟨booted, page, drawn, boots, returns, conserved.1, conserved.2.1⟩

end PrettyOS.Mm
