import PrettyOS.Fs.Buffer
import PrettyOS.Library.Runs
import Mathlib.Data.List.Iterate
import Mathlib.Data.List.Nodup

/-!
Contract: the free ring of the buffer cache.
-/

namespace PrettyOS.Fs

open Library List Option
open Function

inductive BufferCall where
  | getblk (dev block : Nat)
  | brelse (bh : Nat)
deriving DecidableEq

def BufferCall.run (fuel : Nat) (call : BufferCall) (c : Buffers) : Option (Nat × Buffers) :=
  match call with
  | .getblk dev block => c.getblk fuel dev block
  | .brelse bh => (c.brelse bh).map fun c => (0, c)

def BufferCall.isGetblk : BufferCall → Bool
  | .getblk _ _ => true
  | .brelse _ => false

namespace Buffers

variable {n fuel dev block bh item start : Nat} {stale : Nat → Nat} {c d after : Buffers}
  {isBuffer : Nat → Prop}

def IsBuffer (n start bh : Nat) : Prop := ∃ i < n, bh = start + 36 * i

def tour (c : Buffers) (n : Nat) : List Nat := List.iterate c.bNextFree c.freeList n

structure RingSound (n : Nat) (isBuffer : Nat → Prop) (c : Buffers) : Prop where
  nodup : (c.tour n).Nodup
  visits : ∀ bh, bh ∈ c.tour n ↔ isBuffer bh
  returns : c.bNextFree^[n] c.freeList = c.freeList
  prevNext : ∀ bh, isBuffer bh → c.bPrevFree (c.bNextFree bh) = bh
  nextPrev : ∀ bh, isBuffer bh → c.bNextFree (c.bPrevFree bh) = bh

structure SameRing (c d : Buffers) : Prop where
  next : d.bNextFree = c.bNextFree
  prev : d.bPrevFree = c.bPrevFree
  head : d.freeList = c.freeList

lemma SameRing.trans (first : SameRing c d) (second : SameRing d after) : SameRing c after :=
  ⟨second.next.trans first.next, second.prev.trans first.prev, second.head.trans first.head⟩

lemma SameRing.symm (same : SameRing c d) : SameRing d c :=
  ⟨same.next.symm, same.prev.symm, same.head.symm⟩

lemma SameRing.ite {cond : Prop} [Decidable cond] (same : SameRing c d) :
    SameRing c (if cond then d else c) := by
  split_ifs
  · exact same
  · exact ⟨rfl, rfl, rfl⟩

lemma SameRing.ringSound (same : SameRing c d) (sound : RingSound n isBuffer c) :
    RingSound n isBuffer d := by
  have tour : d.tour n = c.tour n := by
    unfold Buffers.tour
    rw [same.next, same.head]
  constructor
  · rw [tour]
    exact sound.nodup
  · rw [tour]
    exact sound.visits
  · rw [same.next, same.head]
    exact sound.returns
  · rw [same.next, same.prev]
    exact sound.prevNext
  · rw [same.next, same.prev]
    exact sound.nextPrev

lemma SameRing.relink (same : SameRing c d) (dev block bh : Nat) :
    SameRing ((c.unlinkFree bh).insertIntoFree bh)
      (((d.unlinkFree bh).setBlock dev block bh).insertIntoFree bh) := by
  cases c
  cases d
  obtain ⟨next, prev, head⟩ := same
  dsimp only at next prev head
  subst next prev head
  exact ⟨rfl, rfl, rfl⟩

def unchain (bh : Nat) (c : Buffers) : Buffers := ((c.unlinkNext bh).unlinkPrev bh).unlinkHead bh

lemma sameRing_unchain : SameRing c ((c.takeFree bh).unchain bh) := by
  have taken : SameRing c (c.takeFree bh) := ⟨rfl, rfl, rfl⟩
  have next : ∀ d : Buffers, SameRing d (d.unlinkNext bh) := fun _ => SameRing.ite ⟨rfl, rfl, rfl⟩
  have prev : ∀ d : Buffers, SameRing d (d.unlinkPrev bh) := fun _ => SameRing.ite ⟨rfl, rfl, rfl⟩
  have head : ∀ d : Buffers, SameRing d (d.unlinkHead bh) := fun _ => SameRing.ite ⟨rfl, rfl, rfl⟩
  exact ((taken.trans (next _)).trans (prev _)).trans (head _)

lemma sameRing_assign :
    SameRing ((c.unlinkFree bh).insertIntoFree bh) (c.assign dev block bh) := by
  have hashed : ∀ d : Buffers, SameRing d (d.insertIntoHash bh) := by
    intro d
    have cleared : SameRing d (d.clearLinks bh) := ⟨rfl, rfl, rfl⟩
    exact cleared.trans (SameRing.ite ⟨rfl, rfl, rfl⟩)
  exact (sameRing_unchain.relink dev block bh).trans (hashed _)

lemma mem_tour : bh ∈ c.tour n ↔ ∃ i < n, bh = c.bNextFree^[i] c.freeList := mem_iterate

namespace RingSound

section

variable (sound : RingSound n isBuffer c)
include sound

lemma index_inj {i j : Nat} (small : i < n) (smallToo : j < n)
    (same : c.bNextFree^[i] c.freeList = c.bNextFree^[j] c.freeList) : i = j := by
  have length : (c.tour n).length = n := length_iterate _ _ _
  have isEntry : ∀ k, ∀ below : k < n,
      (c.tour n).get ⟨k, length.symm ▸ below⟩ = c.bNextFree^[k] c.freeList := fun k _ =>
    getElem_iterate _ _ _ _ _
  have entries : (c.tour n).get ⟨i, length.symm ▸ small⟩ =
      (c.tour n).get ⟨j, length.symm ▸ smallToo⟩ := by
    rw [isEntry i small, isEntry j smallToo, same]
  exact Fin.mk.inj ((List.Nodup.get_inj_iff sound.nodup).mp entries)

lemma head_buffer (pos : 0 < n) : isBuffer c.freeList :=
  (sound.visits _).mp (mem_tour.mpr ⟨0, pos, rfl⟩)

lemma next_buffer (inRing : isBuffer bh) : isBuffer (c.bNextFree bh) := by
  obtain ⟨i, _, rfl⟩ := mem_tour.mp ((sound.visits bh).mpr inRing)
  rw [← iterate_succ_apply' c.bNextFree]
  rcases Nat.lt_or_ge (i + 1) n with below | last
  · exact (sound.visits _).mp (mem_tour.mpr ⟨i + 1, below, rfl⟩)
  · rw [show i.succ = n by omega, sound.returns]
    exact sound.head_buffer (by omega)

lemma prev_buffer (inRing : isBuffer bh) : isBuffer (c.bPrevFree bh) := by
  -- every buffer follows one in the ring, the first one follows the last
  have follows : ∃ i < n, bh = c.bNextFree (c.bNextFree^[i] c.freeList) := by
    obtain ⟨i, small, isBh⟩ := mem_tour.mp ((sound.visits bh).mpr inRing)
    cases i with
    | zero =>
      refine ⟨n - 1, by omega, ?_⟩
      rw [← iterate_succ_apply' c.bNextFree, show (n - 1).succ = n by omega, sound.returns]
      exact isBh
    | succ i => exact ⟨i, by omega, isBh.trans (iterate_succ_apply' _ _ _)⟩
  obtain ⟨i, small, rfl⟩ := follows
  have before := (sound.visits _).mp (mem_tour.mpr ⟨i, small, rfl⟩)
  rw [sound.prevNext _ before]
  exact before

lemma next_ne (two : 2 ≤ n) (inRing : isBuffer bh) : c.bNextFree bh ≠ bh := by
  obtain ⟨i, small, rfl⟩ := mem_tour.mp ((sound.visits bh).mpr inRing)
  intro same
  rw [← iterate_succ_apply' c.bNextFree] at same
  rcases Nat.lt_or_ge (i + 1) n with below | last
  · have equal := sound.index_inj below small same
    omega
  rw [show i.succ = n by omega, sound.returns] at same
  have equal := sound.index_inj (show 0 < n by omega) small same
  omega

end

end RingSound

lemma chooseFree_spec {best : Nat} (inside : ∀ bh, isBuffer bh → isBuffer (c.bNextFree bh))
    (inRing : isBuffer item) (free : best = 0 ∨ isBuffer best ∧ c.bCount best = 0)
    (chosen : c.chooseFree fuel item best = some bh) : bh = 0 ∨ isBuffer bh ∧ c.bCount bh = 0 := by
  induction fuel generalizing item best with
  | zero => cases chosen
  | succ fuel ih =>
    unfold chooseFree at chosen
    dsimp only at chosen
    generalize isBest : (if c.bCount item = 0 ∧ (best = 0 ∨ c.badness item < c.badness best) then
      item else best) = better at chosen
    have stillFree : better = 0 ∨ isBuffer better ∧ c.bCount better = 0 := by
      rw [← isBest]
      split_ifs with isFree
      · exact .inr ⟨inRing, isFree.1⟩
      · exact free
    split_ifs at chosen with found last
    · cases chosen
      exact .inr ⟨inRing, found.1.1⟩
    · cases chosen
      exact stillFree
    · exact ih (inside item inRing) stillFree chosen

lemma next_unlinkFree :
    (c.unlinkFree bh).bNextFree = update c.bNextFree (c.bPrevFree bh) (c.bNextFree bh) :=
  rfl

lemma next_unlinkFree_self : (c.unlinkFree bh).bNextFree bh = c.bNextFree bh := by
  rw [next_unlinkFree, update_apply]
  split_ifs <;> rfl

lemma prev_unlinkFree :
    (c.unlinkFree bh).bPrevFree =
      update c.bPrevFree (c.bNextFree bh) (c.bPrevFree bh) := by
  show update c.bPrevFree ((c.unlinkFree bh).bNextFree bh) (c.bPrevFree bh) = _
  rw [next_unlinkFree_self]

lemma head_unlinkFree :
    (c.unlinkFree bh).freeList = if c.freeList = bh then c.bNextFree bh else c.freeList := by
  show (if c.freeList = bh then (c.unlinkFree bh).bNextFree bh else c.freeList) = _
  rw [next_unlinkFree_self]

lemma next_insertIntoFree (other : c.freeList ≠ bh) :
    (c.insertIntoFree bh).bNextFree =
      update (update c.bNextFree bh c.freeList) (c.bPrevFree c.freeList) bh := by
  show update (update c.bNextFree bh c.freeList)
    (update c.bPrevFree bh _ c.freeList) bh = _
  rw [update_of_ne other]

lemma prev_insertIntoFree (other : c.freeList ≠ bh) :
    (c.insertIntoFree bh).bPrevFree =
      update c.bPrevFree bh (c.bNextFree c.freeList) := by
  show update c.bPrevFree bh (update c.bNextFree bh c.freeList c.freeList) = _
  rw [update_of_ne other]

section

variable (sound : RingSound n isBuffer c) (two : 2 ≤ n) (inRing : isBuffer bh)
include sound two inRing

/-- What the head of the ring is once a buffer is taken out. -/
theorem RingSound.head_unlinkFree_ne :
    (c.unlinkFree bh).freeList ≠ bh ∧ isBuffer (c.unlinkFree bh).freeList := by
  rw [head_unlinkFree]
  split_ifs with isHead
  · exact ⟨sound.next_ne two inRing, sound.next_buffer inRing⟩
  · exact ⟨isHead, sound.head_buffer (by omega)⟩

theorem RingSound.prev_unlinkFree_ne :
    (c.unlinkFree bh).bPrevFree (c.unlinkFree bh).freeList ≠ bh := by
  have prevNe : c.bPrevFree bh ≠ bh := by
    intro same
    have next := sound.nextPrev bh inRing
    rw [same] at next
    exact sound.next_ne two inRing next
  rw [prev_unlinkFree]
  rcases eq_or_ne (c.unlinkFree bh).freeList (c.bNextFree bh) with same | ne
  · rw [same, update_self]
    exact prevNe
  rw [update_of_ne ne]
  intro precedes
  have follows := sound.nextPrev _ (sound.head_unlinkFree_ne two inRing).2
  rw [precedes] at follows
  exact ne follows.symm

lemma RingSound.relink_broken : ¬RingSound n isBuffer ((c.unlinkFree bh).insertIntoFree bh) := by
  have other := (sound.head_unlinkFree_ne two inRing).1
  have prevHead := sound.prev_unlinkFree_ne two inRing
  intro again
  have back := again.prevNext bh inRing
  rw [next_insertIntoFree other, update_of_ne prevHead.symm, update_self,
    prev_insertIntoFree other, update_of_ne other] at back
  exact prevHead back

end

lemma RingSound.relink_single (sound : RingSound 1 isBuffer c) (inRing : isBuffer bh) :
    RingSound 1 isBuffer ((c.unlinkFree bh).insertIntoFree bh) := by
  have isHead : ∀ bh, isBuffer bh → bh = c.freeList := by
    intro bh inRing
    obtain ⟨i, small, isBh⟩ := mem_tour.mp ((sound.visits bh).mpr inRing)
    rw [Nat.lt_one_iff.mp small] at isBh
    exact isBh
  obtain rfl := isHead bh inRing
  have next : c.bNextFree c.freeList = c.freeList := sound.returns
  have prev := isHead _ (sound.prev_buffer inRing)
  refine SameRing.ringSound ⟨?_, ?_, ?_⟩ sound
  all_goals
    simp only [unlinkFree, insertIntoFree, setNextFree, setPrevFree, next, prev,
      update_eq_self_iff, update_self, update_idem, if_true]

def Unhashed (c : Buffers) : Prop := ∀ index, c.hashBuffer index = 0

lemma Unhashed.findBuffer (unhashed : c.Unhashed)
    (found : Buffers.findBuffer fuel dev block c = some bh) : bh = 0 := by
  unfold Buffers.findBuffer hash at found
  rw [unhashed] at found
  cases fuel with
  | zero => cases found
  | succ fuel =>
    rw [findFrom, if_pos rfl] at found
    exact (Option.some.inj found).symm

lemma sameRing_brelse (ran : c.brelse bh = some after) : SameRing c after := by
  unfold brelse at ran
  split_ifs at ran
  · cases ran
    exact ⟨rfl, rfl, rfl⟩
  · cases ran
    exact ⟨rfl, rfl, rfl⟩

lemma Unhashed.brelse (unhashed : c.Unhashed) (ran : c.brelse bh = some after) :
    after.Unhashed := by
  unfold Buffers.brelse at ran
  split_ifs at ran
  · cases ran
    exact unhashed
  · cases ran
    exact unhashed

lemma RingSound.getblk (sound : RingSound n isBuffer c) (pos : 0 < n)
    (ran : c.getblk fuel dev block = some (bh, after)) :
    Buffers.findBuffer fuel dev block c = some bh ∧ SameRing c after ∨
      isBuffer bh ∧ SameRing ((c.unlinkFree bh).insertIntoFree bh) after := by
  obtain ⟨ne0, -, ⟨found, rfl⟩ | ⟨-, chosen, rfl⟩⟩ := getblk_inv ran
  · exact .inl ⟨found, rfl, rfl, rfl⟩
  have inRing := chooseFree_spec (fun bh (inRing : isBuffer bh) => sound.next_buffer inRing)
    (sound.head_buffer pos) (.inl rfl) chosen
  exact .inr ⟨(inRing.resolve_left ne0).1, sameRing_assign⟩

lemma RingSound.run_single {call : BufferCall} {res : Nat} (sound : RingSound 1 isBuffer c)
    (ran : call.run fuel c = some (res, after)) : RingSound 1 isBuffer after := by
  cases call with
  | getblk dev block =>
    rcases sound.getblk Nat.one_pos ran with ⟨-, same⟩ | ⟨inRing, same⟩
    · exact same.ringSound sound
    · exact same.ringSound (sound.relink_single inRing)
  | brelse bh =>
    obtain ⟨_, freed, same⟩ := map_eq_some_iff.mp ran
    cases same
    exact (sameRing_brelse freed).ringSound sound

lemma RingSound.run_iff {call : BufferCall} {res : Nat} (sound : RingSound n isBuffer c)
    (two : 2 ≤ n) (unhashed : c.Unhashed) (ran : call.run fuel c = some (res, after)) :
    RingSound n isBuffer after ↔ call.isGetblk = false := by
  cases call with
  | getblk dev block =>
    refine iff_of_false (fun again => ?_) nofun
    rcases sound.getblk (by omega) ran with ⟨found, -⟩ | ⟨inRing, same⟩
    · exact (getblk_inv ran).1 (unhashed.findBuffer found)
    · exact sound.relink_broken two inRing (same.symm.ringSound again)
  | brelse bh =>
    obtain ⟨_, freed, same⟩ := map_eq_some_iff.mp ran
    cases same
    exact iff_of_true ((sameRing_brelse freed).ringSound sound) rfl

lemma iterate_bufferInitOf {i : Nat} (small : i < n) :
    (bufferInitOf stale n start).bNextFree^[i] start = start + 36 * i := by
  induction i with
  | zero => rfl
  | succ i ih =>
    rw [iterate_succ_apply', ih (by omega)]
    show (if start + 36 * i = start + 36 * (n - 1) then start else start + 36 * i + 36) = _
    rw [if_neg (by omega)]
    omega

lemma ringSound_bufferInitOf (pos : 0 < n) :
    RingSound n (IsBuffer n start) (bufferInitOf stale n start) := by
  have isTour : (bufferInitOf stale n start).tour n = (List.range n).map (start + 36 * ·) := by
    apply ext_getElem
    · simp [tour]
    intro i inTour lt
    have small : i < n := by simpa using lt
    rw [getElem_map, getElem_range]
    exact (getElem_iterate _ _ _ _ _).trans (iterate_bufferInitOf small)
  have next : ∀ bh, (bufferInitOf stale n start).bNextFree bh =
      if bh = start + 36 * (n - 1) then start else bh + 36 := fun _ => rfl
  have prev : ∀ bh, (bufferInitOf stale n start).bPrevFree bh =
      if bh = start then start + 36 * (n - 1) else bh - 36 := fun _ => rfl
  constructor
  · rw [isTour]
    exact nodup_range.map fun i j (same : start + 36 * i = start + 36 * j) => by omega
  · intro bh
    rw [isTour, List.mem_map]
    simp only [mem_range, IsBuffer, eq_comm]
  · obtain ⟨last, rfl⟩ := Nat.exists_eq_add_of_lt pos
    rw [iterate_succ_apply', show (bufferInitOf stale (0 + last + 1) start).freeList = start
      from rfl, iterate_bufferInitOf (by omega), next, if_pos (by omega)]
  · rintro bh ⟨i, small, rfl⟩
    rw [next, prev]
    split_ifs <;> omega
  · rintro bh ⟨i, small, rfl⟩
    rw [prev, next]
    split_ifs <;> omega

end Buffers

open Buffers in
/-- In a run from the state `buffer_init` leaves with `n` buffers, the ring is sound after every
call exactly when there is only one buffer or no block is asked for. -/
theorem ring_sound_iff {fuel n start : Nat} {stale : Nat → Nat} {calls : List BufferCall}
    {last : Buffers}
    {results : List Nat} (positive : 0 < n)
    (returned :
      runSteps (BufferCall.run fuel) calls (bufferInitOf stale n start) = some (results, last)) :
    AfterEach (BufferCall.run fuel) (fun _ _ _ after => RingSound n (IsBuffer n start) after) calls
        (bufferInitOf stale n start) ↔
      n = 1 ∨ ∀ call ∈ calls, call.isGetblk = false := by
  have initial : RingSound n (IsBuffer n start) (bufferInitOf stale n start) :=
    ringSound_bufferInitOf positive
  rcases eq_or_ne n 1 with rfl | several
  · refine iff_of_true ?_ (.inl rfl)
    exact afterEach_of_good
      (fun sound _ isStep => ⟨sound.run_single isStep, sound.run_single isStep⟩) initial
      (fun _ _ => trivial)
  have two : 2 ≤ n := by omega
  rw [or_iff_right several, ← atEach_call_iff returned]
  refine @afterEach_iff_atEach _ _ _ _ _ _
    (fun c => RingSound n (IsBuffer n start) c ∧ c.Unhashed) _ _ _ _ ?_ ?_
    ⟨initial, fun _ => rfl⟩ returned
  · intro call c result after good isStep
    exact good.1.run_iff two good.2 isStep
  intro call c result after good isStep isRelease
  refine ⟨(good.1.run_iff two good.2 isStep).mpr isRelease, ?_⟩
  cases call with
  | getblk dev block => cases isRelease
  | brelse bh =>
    obtain ⟨_, isReleased, same⟩ := map_eq_some_iff.mp isStep
    cases same
    exact good.2.brelse isReleased

/-- A ring of one buffer stays sound when the buffer is asked for and released. -/
theorem ring_sound_oneBuffer :
    (runSteps (BufferCall.run 8) [.getblk 0x310 1, .brelse 0x100000]
        (Buffers.bufferInitOf (fun _ => 7) 1 0x100000)).isSome = true ∧
      AfterEach (BufferCall.run 8)
        (fun _ _ _ after => Buffers.RingSound 1 (Buffers.IsBuffer 1 0x100000) after)
        [.getblk 0x310 1, .brelse 0x100000] (Buffers.bufferInitOf (fun _ => 7) 1 0x100000) :=
  ⟨by decide, (ring_sound_iff (by decide) rfl).mpr (Or.inl rfl)⟩

def twoRequests : List BufferCall := [.getblk 0x310 1, .getblk 0x310 2]

lemma isSome_twoRequests :
    (runSteps (BufferCall.run 8) twoRequests
      (Buffers.bufferInit (fun _ => 0) 0x100000)).isSome = true := by
  decide

def requestedTwice : Buffers :=
  ((runSteps (BufferCall.run 8) twoRequests
      (Buffers.bufferInit (fun _ => 0) 0x100000)).get isSome_twoRequests).2

/-- After two requests the first buffer is lost: the ring returns one step early, without it. -/
theorem buffer_lost_twoRequests :
    (∃ results, runSteps (BufferCall.run 8) twoRequests
        (Buffers.bufferInitOf (fun _ => 0) Buffers.nrBuffers 0x100000) =
          some (results, requestedTwice)) ∧
      0x100000 ∉ requestedTwice.tour Buffers.nrBuffers ∧
        requestedTwice.bNextFree^[Buffers.nrBuffers - 1] requestedTwice.freeList =
          requestedTwice.freeList := by
  refine ⟨⟨_, (some_get isSome_twoRequests).symm⟩, ?_, ?_⟩
  · set_option maxRecDepth 4000 in decide
  · set_option maxRecDepth 4000 in decide

end PrettyOS.Fs
