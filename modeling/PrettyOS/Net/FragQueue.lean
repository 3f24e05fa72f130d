import Mathlib.Data.Set.Basic
import Mathlib.Tactic.FinCases
import PrettyOS.Library.DoublyLinked
import PrettyOS.Net.Defrag

/-!
Contract: which runs of `ip_defrag` on the fragments of one datagram return and keep its queue
well formed.
-/

namespace PrettyOS.Net

open Function Kernel Library List Nat Option

/-! ## Well formed queues -/

/-- The bytes from `lo` up to, and without, `hi`. -/
structure Span where
  lo : Int
  hi : Int

namespace Span

def covered (spans : List Span) : Set Int := {b | ∃ s ∈ spans, s.lo ≤ b ∧ b < s.hi}

structure InOrder (spans : List Span) : Prop where
  proper : ∀ s ∈ spans, s.lo ≤ s.hi
  apart : spans.Pairwise fun s t => s.hi ≤ t.lo

end Span

def IpPacket.span (packet : IpPacket) : Span := ⟨packet.first, packet.behind⟩

namespace FragQueue

def Lists (q : FragQueue) (frags : List Nat) : Prop :=
  if q.present = true then Doubly 0 q.next q.prev 0 q.fragments frags else frags = []

def span (q : FragQueue) (frag : Nat) : Span := ⟨q.offset frag, q.fin frag⟩

def Measured (q : FragQueue) (frag : Nat) : Prop := q.fragLen frag = q.fin frag - q.offset frag

/-- The list of fragments is linked both ways, in order of the offsets and without overlaps. -/
structure WellFormed (q : FragQueue) (frags : List Nat) : Prop where
  linked : q.Lists frags
  nodup : frags.Nodup
  measured : ∀ frag ∈ frags, q.Measured frag
  inOrder : Span.InOrder (frags.map q.span)

theorem Lists.unique {q : FragQueue} {frags others : List Nat} (lists : q.Lists frags)
    (alsoOthers : q.Lists others) : frags = others := by
  unfold Lists at lists alsoOthers
  split_ifs at lists alsoOthers with isPresent
  · exact lists.unique alsoOthers
  · rw [lists, alsoOthers]

end FragQueue

/-! ## Runs -/

structure Receiver where
  queue : FragQueue
  timers : Timers
  received : List Span

structure Arrival where
  packet : IpPacket
  tfp : Nat

def defragStep (timerHeader fuel : Nat) (arrival : Arrival) (r : Receiver) :
    Option (Defragged × Receiver) :=
  (ipDefrag timerHeader fuel arrival.tfp arrival.packet r.queue r.timers).map fun done =>
    (done.1, ⟨done.2.1, done.2.2, arrival.packet.span :: r.received⟩)

/-- The fragment object is there and the payload has no negative length. -/
structure Arrival.Admitted (arrival : Arrival) : Prop where
  notNull : arrival.tfp ≠ 0
  lengths : arrival.packet.headerLen ≤ (ntohs arrival.packet.totLen).toNat

/-- The queue is well formed and covers every byte that has been received. -/
def Receiver.Kept (r : Receiver) : Prop :=
  ∃ frags, r.queue.WellFormed frags ∧
    Span.covered r.received ⊆ Span.covered (frags.map r.queue.span)

def Arrival.Later (arrival : Arrival) : Prop := offsetIn arrival.packet.flagsOff ≠ 0

/-- Nothing, or one packet with offset 0 and without payload. -/
def Trailing : List Arrival → Prop
  | [] => True
  | [empty] => ¬ empty.Later ∧ empty.packet.behind = 0
  | _ => False

/-- At most one fragment, not the first of its datagram. -/
def Lone : List Arrival → Prop
  | [] => True
  | fragment :: rest => fragment.Later ∧ Trailing rest

variable {timerHeader fuel : Nat} {arrival : Arrival} {arrivals : List Arrival} {r : Receiver}
  {timers : Timers} {listed : List Nat}

/-! ## The first fragment -/

theorem Arrival.Admitted.proper (adm : arrival.Admitted) :
    arrival.packet.first ≤ arrival.packet.behind := by
  have lengths := adm.lengths
  rw [IpPacket.behind]
  omega

theorem Arrival.Later.first_pos (later : arrival.Later) : 0 < arrival.packet.first := by
  rw [Arrival.Later] at later
  rw [IpPacket.first, shiftLeft_eq]
  omega

/-- The queue that holds one fragment, as the first packet leaves it. -/
structure Holds (arrival : Arrival) (q : FragQueue) : Prop where
  present : q.present = true
  fragments : q.fragments = arrival.tfp
  next : q.next arrival.tfp = 0
  prev : q.prev arrival.tfp = 0
  span : q.span arrival.tfp = arrival.packet.span
  measured : q.Measured arrival.tfp

theorem enter_empty {q : FragQueue} (isPresent : q.present = true) (noFragments : q.fragments = 0)
    (ne0 : arrival.tfp ≠ 0) (later : arrival.Later) :
    ∃ after, FragQueue.enter (fuel + 1) arrival.tfp arrival.packet q = some (.kept, after) ∧
      after.timer = q.timer ∧ Holds arrival after := by
  -- the fragment starts behind byte 0, so that it does not complete the datagram
  have positive := later.first_pos
  have notDone : ∀ linked : FragQueue, linked.fragments = arrival.tfp →
      linked.offset arrival.tfp = arrival.packet.first →
      FragQueue.ipFrqDone (fuel + 1) linked = some false := by
    intro linked isFirst starts
    rw [FragQueue.ipFrqDone, FragQueue.frqDoneLoop, isFirst, if_pos ne0, starts, if_pos positive,
      ite_self]
  refine ⟨FragQueue.linkFragment arrival.tfp 0 0 (FragQueue.ipFragCreate arrival.tfp
    arrival.packet.first arrival.packet.behind arrival.packet.skb
    (arrival.packet.data + arrival.packet.headerLen) { q with len := arrival.packet.behind }),
    ?_, rfl, ?_⟩
  · simp [FragQueue.enter, moreIn_eq_false, noFragments, FragQueue.findPlace, FragQueue.swallow,
      ne0, notDone, FragQueue.linkFragment, FragQueue.ipFragCreate]
  · constructor <;> simp [FragQueue.linkFragment, FragQueue.ipFragCreate, isPresent,
      FragQueue.span, FragQueue.Measured, IpPacket.span]

theorem Holds.wellFormed {q : FragQueue} (holds : Holds arrival q) (adm : arrival.Admitted) :
    q.WellFormed [arrival.tfp] := by
  constructor
  case linked =>
    rw [FragQueue.Lists, if_pos holds.present]
    exact ⟨holds.fragments, adm.notNull, holds.prev, holds.next⟩
  case nodup => exact nodup_singleton _
  case measured => simpa using holds.measured
  case inOrder =>
    rw [map_singleton, holds.span]
    exact ⟨by simpa [IpPacket.span] using adm.proper, pairwise_singleton _ _⟩

/-! ## The timer -/

theorem startTimer_list {timer : Nat} (list : TimerList timerHeader timers listed)
    (ne0 : timer ≠ 0) (off : timer ∉ timerHeader :: listed) (enough : listed.length < fuel) :
    ∃ after listed', startTimer timerHeader fuel timer timers = some after ∧
      TimerList timerHeader after listed' ∧ listed'.Perm (timer :: listed) := by
  have timed : TimerList timerHeader
      { timers with expires := update timers.expires timer ipFragTime } listed :=
    list.congr (fun _ _ => rfl) (fun _ _ => rfl) (update_unlisted off)
  obtain ⟨after, listed', added, listAfter, same⟩ := addTimer_list timed ne0 off enough
  exact ⟨after, listed', by rw [startTimer, added]; rfl, listAfter, same⟩

theorem delTimer_unlisted {timer : Nat} (list : TimerList timerHeader timers listed)
    (off : timer ∉ timerHeader :: listed) : delTimer timerHeader fuel timer timers = none := by
  rw [delTimer, delScan_unlisted list off mem_cons_self, bind_none]

/-! ## One packet -/

/-- Without a queue, the next packet can only be a fragment with an offset. -/
structure Idle (timerHeader : Nat) (r : Receiver) (listed : List Nat) : Prop where
  absent : r.queue.present = false
  list : TimerList timerHeader r.timers listed
  notNull : r.queue.timer ≠ 0
  unlisted : r.queue.timer ∉ timerHeader :: listed

/-- The queue holds one fragment and its timer runs. -/
structure Waiting (timerHeader : Nat) (arrival : Arrival) (r : Receiver) (listed : List Nat) :
    Prop where
  holds : Holds arrival r.queue
  list : TimerList timerHeader r.timers listed
  active : r.queue.timer ∈ listed
  received : r.received = [arrival.packet.span]

/-- The queue is there and its timer is stopped. -/
structure Stopped (timerHeader : Nat) (r : Receiver) (listed : List Nat) : Prop where
  present : r.queue.present = true
  list : TimerList timerHeader r.timers listed
  inactive : r.queue.timer ∉ timerHeader :: listed

theorem Idle.later (idle : Idle timerHeader r listed) {result : Defragged} {after : Receiver}
    (returns : defragStep timerHeader fuel arrival r = some (result, after)) : arrival.Later := by
  intro first
  simp [defragStep, ipDefrag, ipFrqFind, idle.absent, moreIn_eq_false, first] at returns

theorem Idle.step (idle : Idle timerHeader r listed) (noBytes : r.received = [])
    (adm : arrival.Admitted) (later : arrival.Later) (enough : listed.length < fuel) :
    ∃ after listed', defragStep timerHeader fuel arrival r = some (.kept, after) ∧
      Waiting timerHeader arrival after listed' ∧ listed'.length = listed.length + 1 := by
  have cleared : TimerList timerHeader (initTimer r.queue.timer r.timers).2 listed :=
    idle.list.congr (update_unlisted idle.unlisted) (update_unlisted idle.unlisted)
      (fun _ _ => rfl)
  obtain ⟨timers, listed', started, list, same⟩ :=
    startTimer_list cleared idle.notNull idle.unlisted enough
  obtain ⟨fuel, rfl⟩ := exists_eq_succ_of_ne_zero (ne_zero_of_lt enough)
  obtain ⟨q, entered, sameTimer, holds⟩ := @enter_empty fuel arrival
    { r.queue with present := true, len := 0, fragments := 0 } rfl rfl adm.notNull later
  have active : q.timer ∈ listed' := by
    rw [sameTimer]
    exact same.mem_iff.mpr mem_cons_self
  refine ⟨⟨q, timers, [arrival.packet.span]⟩, listed', ?_, ⟨holds, list, active, rfl⟩, ?_⟩
  · have notFirst : ¬ offsetIn arrival.packet.flagsOff = 0 := later
    simp [defragStep, ipDefrag, ipFrqFind, idle.absent, notFirst, ipFrqCreate, started, entered,
      noBytes]
  · simpa using same.length_eq

theorem Waiting.kept {after : Receiver} (waiting : Waiting timerHeader arrival after listed)
    (adm : arrival.Admitted) : after.Kept := by
  refine ⟨[arrival.tfp], waiting.holds.wellFormed adm, ?_⟩
  rw [waiting.received, map_singleton, waiting.holds.span]

theorem Waiting.find (waiting : Waiting timerHeader arrival r listed)
    (enough : listed.length < fuel) :
    ∃ stopped, ipFrqFind timerHeader fuel r.queue r.timers = some stopped ∧
      TimerList timerHeader stopped (listed.erase r.queue.timer) ∧
      r.queue.timer ∉ timerHeader :: listed.erase r.queue.timer := by
  obtain ⟨stopped, ran, list⟩ := delTimer_list waiting.list waiting.active enough
  obtain ⟨notHeader, nodup⟩ := nodup_cons.mp waiting.list.circular.nodup
  refine ⟨stopped, by simp [ipFrqFind, waiting.holds.present, ran], list, ?_⟩
  intro mem
  rcases mem_cons.mp mem with isHeader | again
  · exact notHeader (isHeader ▸ waiting.active)
  · exact (nodup.mem_erase_iff.mp again).1 rfl

/-- `ip_frq_find` has stopped the timer, and `ip_defrag` tries to stop it once more. -/
theorem Waiting.later_none {next : Arrival} (waiting : Waiting timerHeader arrival r listed)
    (later : next.Later) (enough : listed.length < fuel) :
    defragStep timerHeader fuel next r = none := by
  obtain ⟨stopped, found, list, inactive⟩ := waiting.find enough
  have notFirst : ¬ offsetIn next.packet.flagsOff = 0 := later
  have never := @delTimer_unlisted timerHeader fuel stopped _ _ list inactive
  simp [defragStep, ipDefrag, found, waiting.holds.present, notFirst, restartTimer, never]

theorem Waiting.first_step {next : Arrival} (waiting : Waiting timerHeader arrival r listed)
    (first : ¬ next.Later) (enough : listed.length < fuel) :
    ∃ timers, defragStep timerHeader fuel next r = some (.whole, ⟨r.queue, timers,
        [next.packet.span, arrival.packet.span]⟩) ∧
      Stopped timerHeader ⟨r.queue, timers, [next.packet.span, arrival.packet.span]⟩
        (listed.erase r.queue.timer) := by
  obtain ⟨stopped, found, list, inactive⟩ := waiting.find enough
  have isFirst : offsetIn next.packet.flagsOff = 0 := not_not.mp first
  refine ⟨stopped, ?_, waiting.holds.present, list, inactive⟩
  simp [defragStep, ipDefrag, found, moreIn_eq_false, isFirst, waiting.holds.present,
    waiting.received]

theorem Stopped.none (stopped : Stopped timerHeader r listed) :
    defragStep timerHeader fuel arrival r = none := by
  have never := @delTimer_unlisted timerHeader fuel r.timers _ _ stopped.list stopped.inactive
  simp [defragStep, ipDefrag, ipFrqFind, stopped.present, never]

/-- The packet with offset 0 is not queued: its bytes are covered only if it has none. -/
theorem Holds.kept_iff {next : Arrival} {q : FragQueue} (holds : Holds arrival q)
    (adm : arrival.Admitted) (later : arrival.Later) (nextAdm : next.Admitted)
    (first : ¬ next.Later) :
    Receiver.Kept ⟨q, timers, [next.packet.span, arrival.packet.span]⟩ ↔
      next.packet.behind = 0 := by
  have isZero : next.packet.first = 0 := by
    rw [IpPacket.first, not_not.mp first]
    rfl
  have proper := nextAdm.proper
  have positive := later.first_pos
  constructor
  · rintro ⟨frags, wellFormed, covers⟩
    by_contra notEmpty
    rw [(holds.wellFormed adm).linked.unique wellFormed.linked |>.symm, map_singleton,
      holds.span] at covers
    obtain ⟨s, mem, lower, -⟩ := @covers 0 ⟨_, mem_cons_self, by
      simp only [IpPacket.span]
      omega⟩
    rw [mem_singleton.mp mem] at lower
    exact absurd positive (not_lt.mpr lower)
  · intro isEmpty
    refine ⟨[arrival.tfp], holds.wellFormed adm, ?_⟩
    rw [map_singleton, holds.span]
    rintro b ⟨s, mem, inside⟩
    rcases mem_cons.mp mem with rfl | isOld
    · simp only [IpPacket.span] at inside
      omega
    · exact ⟨s, isOld, inside⟩

/-! ## Whole runs -/

theorem Waiting.returnsEach_iff (waiting : Waiting timerHeader arrival r listed)
    (adm : arrival.Admitted) (later : arrival.Later)
    (admitted : ∀ arrival ∈ arrivals, arrival.Admitted) (enough : listed.length < fuel) :
    ReturnsEach (defragStep timerHeader fuel) (fun _ _ _ after => after.Kept) arrivals r ↔
      Trailing arrivals := by
  match arrivals with
  | [] => exact Iff.rfl
  | next :: rest =>
    have nextAdm := admitted next mem_cons_self
    by_cases isLater : next.Later
    · have never := waiting.later_none isLater enough
      refine iff_of_false (fun ⟨_, _, returns, _⟩ => by simp [never] at returns) ?_
      cases rest with
      | nil => exact fun trailing => trailing.1 isLater
      | cons _ _ => exact id
    obtain ⟨timers, isStep, stopped⟩ := waiting.first_step isLater enough
    have keptIff := @Holds.kept_iff arrival timers next r.queue waiting.holds adm later nextAdm
      isLater
    constructor
    · rintro ⟨_, _, returns, isKept, others⟩
      cases isStep.symm.trans returns
      cases rest with
      | nil => exact ⟨isLater, keptIff.mp isKept⟩
      | cons third _ =>
        obtain ⟨_, _, again, -⟩ := others
        simp [stopped.none] at again
    · intro trailing
      cases rest with
      | nil => exact ⟨_, _, isStep, keptIff.mpr trailing.2, trivial⟩
      | cons _ _ => cases trailing

/-- Runs of `ip_defrag` return and keep the queue well formed for one fragment only: a second one
finds the timer of the queue stopped, and the call that stops it again does not return. -/
theorem defrag_wellFormed_iff {start : FragQueue} (list : TimerList timerHeader timers listed)
    (isAbsent : start.present = false) (notNull : start.timer ≠ 0)
    (unlisted : start.timer ∉ timerHeader :: listed)
    (admitted : ∀ arrival ∈ arrivals, arrival.Admitted) (enough : listed.length + 1 < fuel) :
    ReturnsEach (defragStep timerHeader fuel) (fun _ _ _ after => after.Kept) arrivals
      ⟨start, timers, []⟩ ↔ Lone arrivals := by
  have idle : Idle timerHeader ⟨start, timers, []⟩ listed := ⟨isAbsent, list, notNull, unlisted⟩
  cases arrivals with
  | nil => exact Iff.rfl
  | cons arrival rest =>
    rw [forall_mem_cons] at admitted
    constructor
    · rintro ⟨_, _, returns, -, others⟩
      have later := idle.later returns
      obtain ⟨_, _, isStep, waiting, length⟩ :=
        idle.step rfl admitted.1 later (lt_of_succ_lt enough)
      cases isStep.symm.trans returns
      exact ⟨later,
        (waiting.returnsEach_iff admitted.1 later admitted.2 (length ▸ enough)).mp others⟩
    · rintro ⟨later, trailing⟩
      obtain ⟨_, _, isStep, waiting, length⟩ :=
        idle.step rfl admitted.1 later (lt_of_succ_lt enough)
      exact ⟨_, _, isStep, waiting.kept admitted.1,
        (waiting.returnsEach_iff admitted.1 later admitted.2 (length ▸ enough)).mpr trailing⟩

def noQueue : FragQueue :=
  ⟨false, 2, 0, 0, fun _ => 0, fun _ => 0, fun _ => 0, fun _ => 0, fun _ => 0, fun _ => 0,
    fun _ => 0⟩

def fragmentAt (offset len : Nat) (tfp : Nat) : Arrival :=
  ⟨⟨BitVec.ofNat 16 offset, BitVec.ofNat 16 (20 + len), 5, tfp, 0⟩, tfp⟩

theorem quietTimers_list : TimerList 1 quietTimers [] :=
  ⟨Circular.nil rfl rfl, Pairwise.nil, rfl, by decide, not_mem_nil⟩

/-- The bytes 16 to 31, then an empty packet with offset 0. -/
theorem defrag_wellFormed_iff_lone :
    ReturnsEach (defragStep 1 2) (fun _ _ _ after => after.Kept)
      [fragmentAt 2 16 1, fragmentAt 0 0 2] ⟨noQueue, quietTimers, []⟩ := by
  refine (defrag_wellFormed_iff quietTimers_list rfl (by decide) (by decide) ?_ (by decide)).mpr ?_
  · intro arrival mem
    fin_cases mem <;> exact ⟨by decide, by decide⟩
  · exact ⟨by rw [Arrival.Later]; decide, by rw [Arrival.Later]; decide, by decide⟩

/-- The bytes 16 to 31, then those from 8 to 15: the second call does not return. -/
theorem defrag_apart_never_returns :
    (∃ after, runSteps (defragStep 1 2) [fragmentAt 2 16 1] ⟨noQueue, quietTimers, []⟩ =
      some ([.kept], after) ∧ after.Kept) ∧
    ∀ fuel, runSteps (defragStep 1 fuel) [fragmentAt 2 16 1, fragmentAt 1 8 2]
      ⟨noQueue, quietTimers, []⟩ = none := by
  have idle : Idle 1 ⟨noQueue, quietTimers, []⟩ [] :=
    ⟨rfl, quietTimers_list, by decide, by decide⟩
  have adm : (fragmentAt 2 16 1).Admitted := ⟨by decide, by decide⟩
  have later : (fragmentAt 2 16 1).Later := by rw [Arrival.Later]; decide
  have laterNext : (fragmentAt 1 8 2).Later := by rw [Arrival.Later]; decide
  constructor
  · obtain ⟨after, _, isStep, waiting, -⟩ := @Idle.step _ 2 _ _ _ idle rfl adm later (by decide)
    exact ⟨after, runSteps_extend isStep rfl, waiting.kept adm⟩
  intro fuel
  match fuel with
  | 0 => rfl
  | 1 => rfl
  | fuel + 2 =>
    obtain ⟨_, _, isStep, waiting, length⟩ :=
      @Idle.step _ (fuel + 2) _ _ _ idle rfl adm later (succ_pos _)
    rw [runSteps, isStep, bind_some, runSteps, waiting.later_none laterNext (length ▸ by simp)]
    rfl

end PrettyOS.Net
