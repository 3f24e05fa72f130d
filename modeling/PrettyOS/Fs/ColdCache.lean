import PrettyOS.Fs.BufferChains
import PrettyOS.Fs.Disk
import Mathlib.Data.List.Perm.Subperm

/-!
Contract: when `getblk` and `brelse` return.

The free ring of `buffer_init` serves two requests, whatever block numbers its buffers begin with.
After the first one the ring is no longer sound, but it still leads back to its head.
-/

namespace PrettyOS.Fs

open Library List Option Storage
open Function
open Lib (Byte)

namespace Buffers

variable {n start fuel dev block number bh other item : Nat} {stale : Nat → Nat}
  {c after : Buffers} {isBuffer : Nat → Prop}

theorem notBuffer_zero (placed : 0 < start) : ¬IsBuffer n start 0 := by
  rintro ⟨i, -, _⟩
  omega

/-! ## When a request returns -/

theorem findFrom_returns {before first : Nat} {l : List Nat}
    (link : Doubly 0 c.bNext c.bPrev before first l) (enough : l.length < fuel) :
    ∃ found, findFrom c dev block fuel first = some found := by
  induction l generalizing fuel before first with
  | nil =>
    obtain ⟨less, rfl⟩ := Nat.exists_eq_add_of_lt enough
    rw [findFrom, if_pos (show first = 0 from link)]
    exact ⟨0, rfl⟩
  | cons node rest ih =>
    obtain ⟨rfl, ne0, -, linkRest⟩ := link
    obtain ⟨less, rfl⟩ := Nat.exists_eq_add_of_lt enough
    rw [findFrom, if_neg ne0]
    split_ifs
    · exact ⟨first, rfl⟩
    · exact ih linkRest (by rw [length_cons]; omega)

/-- A chain has no more buffers than there are. -/
theorem CacheSound.findBuffer_returns (sound : CacheSound (IsBuffer n start) c)
    (enough : n < fuel) : ∃ found, findBuffer fuel dev block c = some found := by
  obtain ⟨l, nodup, link, isIn⟩ := sound.chained (hashfn dev block) (Nat.mod_lt _ (by decide))
  refine findFrom_returns link (lt_of_le_of_lt ?_ enough)
  have inside : l ⊆ (List.range n).map fun i => start + 36 * i := by
    intro bh mem
    obtain ⟨⟨⟨i, small, rfl⟩, -⟩, -⟩ := (isIn bh).mp mem
    exact mem_map.mpr ⟨i, mem_range.mpr small, rfl⟩
  have short := (nodup.subperm inside).length_le
  rwa [length_map, length_range] at short

/-- Along the ring `rank` goes down until the ring is back at its head. -/
def Descends (isBuffer : Nat → Prop) (rank : Nat → Nat) (c : Buffers) : Prop :=
  ∀ bh, isBuffer bh → c.bNextFree bh = c.freeList ∨ rank (c.bNextFree bh) < rank bh

theorem Descends.chooseFree_returns {rank : Nat → Nat} {best : Nat}
    (descends : Descends isBuffer rank c)
    (inside : ∀ bh, isBuffer bh → isBuffer (c.bNextFree bh)) (nonnull : ¬isBuffer 0)
    (inRing : isBuffer item) (enough : rank item < fuel) (free : best ≠ 0 ∨ c.bCount item = 0) :
    ∃ bh, c.chooseFree fuel item best = some bh ∧ bh ≠ 0 := by
  have itemNotNull : item ≠ 0 := fun isNull => nonnull (isNull ▸ inRing)
  induction fuel generalizing item best with
  | zero => exact absurd enough (Nat.not_lt_zero _)
  | succ fuel ih =>
    unfold chooseFree
    dsimp only
    generalize isBest : (if c.bCount item = 0 ∧ (best = 0 ∨ c.badness item < c.badness best) then
      item else best) = better
    have betterNotNull : better ≠ 0 := by
      rw [← isBest]
      split_ifs with isBetter
      · exact itemNotNull
      · rintro rfl
        exact isBetter ⟨free.resolve_left (not_not.mpr rfl), .inl rfl⟩
    split_ifs with isFound isLast
    · exact ⟨item, rfl, itemNotNull⟩
    · exact ⟨better, rfl, betterNotNull⟩
    have lower := (descends item inRing).resolve_left isLast
    have nextInRing := inside item inRing
    exact ih nextInRing (by omega) (.inl betterNotNull) fun isNull => nonnull (isNull ▸ nextInRing)

/-- The ring leads back to its head, the head is free, and no count is about to wrap around. -/
structure Serving (start : Nat) (c : Buffers) : Prop where
  chains : CacheSound (IsBuffer nrBuffers start) c
  unlocked : ∀ bh, c.bLock bh = 0
  counts : ∀ bh, c.bCount bh < 255
  free : c.bCount c.freeList = 0
  leads : ∃ rank : Nat → Nat, Descends (IsBuffer nrBuffers start) rank c ∧
    ∀ bh, IsBuffer nrBuffers start bh → rank bh ≤ nrBuffers

theorem Serving.getblk (serving : Serving start c) (placed : 0 < start) (enough : nrBuffers < fuel)
    (dev block : Nat) : ∃ bh after, c.getblk fuel dev block = some (bh, after) := by
  have nonnull : ∀ bh, IsBuffer nrBuffers start bh → bh ≠ 0 := by
    rintro bh inRing rfl
    exact notBuffer_zero placed inRing
  obtain ⟨found, isFound⟩ : ∃ found, findBuffer fuel dev block c = some found :=
    serving.chains.findBuffer_returns enough
  unfold Buffers.getblk getHashBuffer
  rw [isFound, bind_some]
  by_cases isHit : found = 0
  · rw [if_pos isHit, bind_some, if_neg (not_not.mpr rfl)]
    obtain ⟨rank, descends, bounded⟩ := serving.leads
    have ring := serving.chains.ring
    obtain ⟨bh, isChosen, ne0⟩ := descends.chooseFree_returns ring.next (notBuffer_zero placed)
      ring.head ((bounded _ ring.head).trans_lt enough) (.inr serving.free)
    have inRing := (serving.chains.chooseFree ne0 isChosen).1
    have linked : ¬(c.bPrevFree bh = 0 ∨ c.bNextFree bh = 0) :=
      not_or.mpr ⟨nonnull _ (ring.prev bh inRing), nonnull _ (ring.next bh inRing)⟩
    rw [isChosen, bind_some, if_neg (not_or.mpr ⟨ne0, not_not.mpr (serving.unlocked bh)⟩),
      if_neg linked]
    exact ⟨_, _, rfl⟩
  · rw [if_neg isHit]
    dsimp only
    have unlocked : (c.setCount found ((c.bCount found + 1) % 256)).bLock found = 0 :=
      serving.unlocked found
    rw [if_pos unlocked, bind_some, if_pos isHit]
    exact ⟨_, _, rfl⟩

/-- What is taken can be given back. -/
theorem Serving.brelse_getblk (serving : Serving start c)
    (isGot : c.getblk fuel dev block = some (bh, after)) :
    ∃ freed, after.brelse bh = some freed := by
  have small := serving.counts bh
  obtain ⟨ne0, -, -⟩ := getblk_inv isGot
  have unlocked : after.bLock bh = 0 := by
    rw [(sameAreas_getblk isGot).lock]
    exact serving.unlocked bh
  refine ⟨_, brelse_eq ne0 unlocked ?_⟩
  obtain ⟨-, -, ⟨-, rfl⟩ | ⟨-, -, rfl⟩⟩ := getblk_inv isGot
  · show update c.bCount bh _ bh ≠ 0
    rw [update_self]
    omega
  · rw [count_assign, update_self]
    decide

theorem Serving.setCount (serving : Serving start c) {value : Nat} (small : value < 255)
    (free : bh = c.freeList → value = 0) : Serving start (c.setCount bh value) where
  chains := serving.chains.setCount bh value
  unlocked := serving.unlocked
  counts other := by
    show update c.bCount bh value other < 255
    rcases eq_or_ne other bh with rfl | ne
    · rwa [update_self]
    · rw [update_of_ne ne]
      exact serving.counts other
  free := by
    show update c.bCount bh value c.freeList = 0
    rcases eq_or_ne c.freeList bh with isHead | ne
    · rw [isHead, update_self]
      exact free isHead.symm
    · rw [update_of_ne ne]
      exact serving.free
  leads := serving.leads

/-- The distance to the head, counted along a sound ring. -/
theorem RingSound.exists_rank (sound : RingSound n isBuffer c) : ∃ rank : Nat → Nat,
    Descends isBuffer rank c ∧ ∀ bh, isBuffer bh → 0 < rank bh ∧ rank bh ≤ n := by
  have length : (c.tour n).length = n := length_iterate _ _ _
  have index : ∀ bh, isBuffer bh → (c.tour n).idxOf bh < n ∧
      c.bNextFree^[(c.tour n).idxOf bh] c.freeList = bh := by
    intro bh inRing
    have small := idxOf_lt_length_iff.mpr ((sound.visits bh).mpr inRing)
    refine ⟨by rwa [length] at small, ?_⟩
    exact (getElem_iterate _ _ _ _ small).symm.trans (getElem_idxOf small)
  refine ⟨fun bh => n - (c.tour n).idxOf bh, fun bh inRing => ?_, fun bh inRing => ?_⟩
  · obtain ⟨small, isBh⟩ := index bh inRing
    obtain ⟨nextSmall, isNext⟩ := index _ (sound.next_buffer inRing)
    rcases Nat.lt_or_ge ((c.tour n).idxOf bh + 1) n with below | last
    · right
      have same : (c.tour n).idxOf (c.bNextFree bh) = (c.tour n).idxOf bh + 1 := by
        refine sound.index_inj nextSmall below ?_
        rw [isNext, iterate_succ_apply', isBh]
      dsimp only
      omega
    · left
      rw [← sound.returns, show n = (c.tour n).idxOf bh + 1 by omega, iterate_succ_apply', isBh]
  · obtain ⟨small, -⟩ := index bh inRing
    dsimp only
    omega

/-- Where a buffer of a sound ring is put behind the others, the ring still leads back: the
buffer comes last. -/
theorem RingSound.relink_leads (sound : RingSound n isBuffer c) (two : 2 ≤ n)
    (inRing : isBuffer bh) : ∃ rank : Nat → Nat,
      Descends isBuffer rank ((c.unlinkFree bh).insertIntoFree bh) ∧
        ∀ other, isBuffer other → rank other ≤ n := by
  obtain ⟨rank, descends, bounds⟩ := sound.exists_rank
  have otherHead := (sound.head_unlinkFree_ne two inRing).1
  have prevHead := sound.prev_unlinkFree_ne two inRing
  refine ⟨update rank bh 0, fun x isBuffer => ?_, fun x isBuffer => ?_⟩
  swap
  · rw [update_apply]
    split_ifs
    · exact Nat.zero_le _
    · exact (bounds x isBuffer).2
  show _ = (c.unlinkFree bh).freeList ∨ _
  rw [next_insertIntoFree otherHead]
  rcases eq_or_ne x bh with rfl | ne
  · left
    rw [update_of_ne prevHead.symm, update_self]
  by_cases isLast : x = (c.unlinkFree bh).bPrevFree (c.unlinkFree bh).freeList
  · right
    rw [isLast, update_self, ← isLast, update_self, update_of_ne ne]
    exact (bounds x isBuffer).1
  rw [update_of_ne isLast, update_of_ne ne, next_unlinkFree]
  by_cases isPrev : x = c.bPrevFree bh
  · rw [← isPrev, update_self, head_unlinkFree]
    have follows : c.bNextFree x = bh := isPrev ▸ sound.nextPrev bh inRing
    split_ifs with isHead
    · exact .inl rfl
    rcases descends bh inRing with back | lower
    · exact .inl back
    · right
      have first := (descends x isBuffer).resolve_left (follows ▸ Ne.symm isHead)
      rw [follows] at first
      rw [update_of_ne (sound.next_ne two inRing), update_of_ne ne]
      omega
  · rw [update_of_ne isPrev, head_unlinkFree]
    have notBefore : c.bNextFree x ≠ bh := by
      rintro rfl
      exact isPrev (sound.prevNext x isBuffer).symm
    rw [update_of_ne notBefore, update_of_ne ne]
    rcases descends x isBuffer with back | lower
    · left
      rw [back, if_neg (back ▸ notBefore)]
    · exact .inr lower

/-- As `buffer_init` leaves the cache: the ring is sound, and its first two buffers are free. -/
structure Ready (start : Nat) (c : Buffers) : Prop where
  chains : CacheSound (IsBuffer nrBuffers start) c
  unlocked : ∀ bh, c.bLock bh = 0
  counts : ∀ bh, c.bCount bh < 255
  ring : RingSound nrBuffers (IsBuffer nrBuffers start) c
  first : c.bCount c.freeList = 0
  second : c.bCount (c.bNextFree c.freeList) = 0

theorem ready_bufferInit (stale : Nat → Nat) (start : Nat) :
    Ready start (bufferInit stale start) where
  chains := by
    have bare : Bare (IsBuffer nrBuffers start) (bufferInitOf stale nrBuffers start) :=
      bare_bufferInitOf (by decide)
    exact bare.cacheSound
  unlocked _ := rfl
  counts _ := Nat.succ_pos 254
  ring := by
    have ring : RingSound nrBuffers (IsBuffer nrBuffers start)
        (bufferInitOf stale nrBuffers start) :=
      ringSound_bufferInitOf (by decide)
    exact ring
  first := rfl
  second := rfl

theorem Ready.serving (ready : Ready start c) : Serving start c where
  chains := ready.chains
  unlocked := ready.unlocked
  counts := ready.counts
  free := ready.first
  leads := by
    obtain ⟨rank, descends, bounds⟩ := ready.ring.exists_rank
    exact ⟨rank, descends, fun bh inRing => (bounds bh inRing).2⟩

/-- After one block has been asked for and released, the next request is served too. -/
theorem Ready.served (ready : Ready start c) (placed : 0 < start) (device : dev ≠ 0)
    (short : dev < 2 ^ 16) {got : Buffers} (isGot : c.getblk fuel dev block = some (bh, got))
    (freed : got.brelse bh = some after) : Serving start after := by
  have two : 2 ≤ nrBuffers := by decide
  have isCall : (BufferCall.getblk dev block).run fuel c = some (bh, got) := isGot
  have onDevice : (BufferCall.getblk dev block).OnDevice := ⟨device, short⟩
  have gotSound := ready.chains.run (notBuffer_zero placed) onDevice isCall
  obtain ⟨ne0, -, ⟨-, rfl⟩ | ⟨-, chosen, rfl⟩⟩ := getblk_inv isGot
  · obtain ⟨-, rfl⟩ := brelse_spec ne0 freed
    have twice : (c.setCount bh ((c.bCount bh + 1) % 256)).setCount bh
        (((c.setCount bh ((c.bCount bh + 1) % 256)).bCount bh + 255) % 256) =
          c.setCount bh (((c.bCount bh + 1) % 256 + 255) % 256) := by
      simp only [Buffers.setCount, update_self, update_idem]
    rw [twice]
    have small := ready.counts bh
    refine ready.serving.setCount (by omega) ?_
    rintro rfl
    rw [ready.first]
  · have inRing := (ready.chains.chooseFree ne0 chosen).1
    have unlocked : ∀ other, (c.assign dev block bh).bLock other = 0 := by
      intro other
      rw [sameAreas_assign.lock]
      exact ready.unlocked other
    obtain ⟨-, rfl⟩ := brelse_spec ne0 freed
    have counts : ∀ other, (c.assign dev block bh).bCount other < 255 := by
      intro other
      rw [count_assign, update_apply]
      split_ifs
      · decide
      · exact ready.counts other
    have same := @sameRing_assign dev block bh c
    have headNe : (c.assign dev block bh).freeList ≠ bh := by
      rw [same.head]
      exact (ready.ring.head_unlinkFree_ne two inRing).1
    have serving : Serving start (c.assign dev block bh) := by
      refine ⟨gotSound, unlocked, counts, ?_, ?_⟩
      · rw [count_assign, update_of_ne headNe, same.head]
        show c.bCount (c.unlinkFree bh).freeList = 0
        rw [head_unlinkFree]
        split_ifs with isHead
        · rw [← isHead]
          exact ready.second
        · exact ready.first
      · obtain ⟨rank, descends, bounded⟩ := ready.ring.relink_leads two inRing
        refine ⟨rank, fun x isBuffer => ?_, bounded⟩
        rw [same.next, same.head]
        exact descends x isBuffer
    refine serving.setCount ?_ fun isHead => absurd isHead.symm headNe
    rw [count_assign, update_self]
    decide

end Buffers

/-! ## A block of the root device that is asked for, worked on and released -/

open Buffers

variable {start fuel block bh : Nat} {s got t : Storage} {edit : Nat → Storage → Storage}

theorem edit_returns (serving : Serving start s.cache) (placed : 0 < start)
    (enough : nrBuffers < fuel) (sameCache : ∀ bh s, (edit bh s).cache = s.cache) (block : Nat) :
    ∃ bh got t, s.getblk fuel rootDev block = some (bh, got) ∧
      (edit bh got).brelse bh = some t := by
  obtain ⟨bh, cache, isGot⟩ := serving.getblk placed enough rootDev block
  obtain ⟨freed, isFreed⟩ := serving.brelse_getblk isGot
  refine ⟨bh, { s with cache := cache }, { edit bh { s with cache := cache } with cache := freed },
    congrArg (Option.map _) isGot, ?_⟩
  unfold Storage.brelse
  rw [sameCache]
  exact congrArg (Option.map _) isFreed

/-- Twice in a row a block of the root device can be had from a cache as it is at the start. -/
theorem serving_of_edit (ready : Ready start s.cache) (placed : 0 < start)
    (isGot : s.getblk fuel rootDev block = some (bh, got))
    (sameCache : ∀ bh s, (edit bh s).cache = s.cache)
    (freed : (edit bh got).brelse bh = some t) : Serving start t.cache := by
  have isBrelse := (brelse_cache freed).1
  rw [sameCache] at isBrelse
  exact ready.served placed (by decide) (by decide) (getblk_cache isGot).1 isBrelse

end PrettyOS.Fs
