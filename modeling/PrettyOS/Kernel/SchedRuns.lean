import PrettyOS.Kernel.SchedSpec

/-!
Contract: the states reachable from start-up, and the task that start-up loses.
-/

namespace PrettyOS.Kernel

open Library.RedBlackTree List Option
open Function
open Lib

structure Boot where
  init : Task
  tty : Task
  testA : Task
  testD : Task
  nodup : [0, init, tty, testA, testD].Nodup

namespace Boot

def start (boot : Boot) (memory : Sched) : Option Sched :=
  initTask [boot.init, boot.tty] [boot.testA, boot.testD] (initSched memory)

def enqueued (boot : Boot) : List Task := [boot.tty, boot.testA, boot.testD]

end Boot

def bootTimeline (boot : Boot) : ColorTree Task :=
  .node .black (.node .red .leaf boot.testA .leaf) boot.tty .leaf

structure Booted (boot : Boot) (s : Sched) : Prop where
  timeline : s.timeline = bootTimeline boot
  current : s.current = boot.testA
  minVruntime : s.minVruntime = 100
  keyA : s.vruntime boot.testA = 100
  keyTty : s.vruntime boot.tty = 101
  stateA : s.taskState boot.testA = .running
  stateTty : s.taskState boot.tty = .running
  stateD : s.taskState boot.testD = .running

lemma getPidmap_initPidmap : (getPidmap initPidmap).1 = initPid := by decide +kernel

lemma getPidmap_second : (getPidmap (getPidmap initPidmap).2).1 ≠ initPid := by decide +kernel

lemma startTask_enqueues {sparesInit : Bool} {i : Nat} {tsk : Task} {s : Sched} {code : Int}
    {timeline : ColorTree Task}
    (enqueues : sparesInit = true → (getPidmap s.pidmap).1 ≠ initPid)
    (ins : tsInsert (update s.vruntime tsk (i + s.minVruntime)) s.timeline tsk =
      some (code, timeline)) :
    startTask sparesInit i tsk s = some { s with
      pidmap := (getPidmap s.pidmap).2
      pid := update s.pid tsk (getPidmap s.pidmap).1
      taskTicks := update s.taskTicks tsk kernelPrior
      vruntime := update s.vruntime tsk (i + s.minVruntime)
      taskState := update s.taskState tsk .running
      timeline := timeline } := by
  have queued : ¬(sparesInit && decide ((getPidmap s.pidmap).1 = initPid)) = true := by
    simpa using enqueues
  unfold startTask
  dsimp only
  rw [if_neg queued]
  unfold cfsEnqueue Sched.setVruntime
  simp only [if_true, update_self, update_idem, ins, map_some]

lemma startTask_init {i : Nat} {tsk : Task} {s : Sched}
    (isInit : (getPidmap s.pidmap).1 = initPid) :
    startTask true i tsk s = some { s with
      pidmap := (getPidmap s.pidmap).2
      pid := update s.pid tsk (getPidmap s.pidmap).1
      taskTicks := update s.taskTicks tsk kernelPrior
      vruntime := update s.vruntime tsk i
      taskState := update s.taskState tsk .running } := by
  unfold startTask
  simp [isInit]

lemma tsInsert_first (vruntime : Task → BitVec 32) (tty : Task) :
    tsInsert vruntime .leaf tty = some (1, .node .black .leaf tty .leaf) := rfl

lemma tsInsert_left {vruntime : Task → BitVec 32} {tty testA : Task}
    (keyTty : vruntime tty = 101) (keyA : vruntime testA = 100) :
    tsInsert vruntime (.node .black .leaf tty .leaf) testA =
      some (1, .node .black (.node .red .leaf testA .leaf) tty .leaf) := by
  have goesLeft : tsDirection vruntime (vruntime testA) tty = some .left := by
    unfold tsDirection
    rw [keyTty, keyA]
    decide
  unfold tsInsert seek
  rw [goesLeft]
  rfl

lemma tsInsert_equal {vruntime : Task → BitVec 32} {tty testD : Task}
    {left right : ColorTree Task} {color : Color} (sameKey : vruntime tty = vruntime testD) :
    tsInsert vruntime (.node color left tty right) testD =
      some (0, .node color left tty right) := by
  unfold tsInsert seek
  rw [tsDirection_eq_none.mpr sameKey]

lemma booted_start (boot : Boot) (memory : Sched) :
    ∃ s, boot.start memory = some s ∧ Booted boot s := by
  obtain ⟨_, tty, _, _, nodup⟩ := boot
  simp only [nodup_cons, mem_cons, not_mem_nil, or_false, not_or] at nodup
  obtain ⟨⟨initNull, ttyNull, aNull, dNull⟩, ⟨_, _, _⟩, ⟨_, _⟩, _, -⟩ := nodup
  unfold Boot.start initTask startTasks
  rw [if_neg (Ne.symm initNull), startTask_init getPidmap_initPidmap]
  simp only [bind_some, startTasks, if_neg (Ne.symm ttyNull), if_neg (Ne.symm aNull),
    if_neg (Ne.symm dNull)]
  rw [startTask_enqueues (fun _ => getPidmap_second) (tsInsert_first _ tty)]
  simp only [bind_some]
  rw [startTask_enqueues (show false = true → _ from nofun)
    (tsInsert_left (by simp [initSched, initialMinVruntime, *])
      (by simp [initSched, initialMinVruntime]))]
  simp only [bind_some]
  rw [startTask_enqueues (show false = true → _ from nofun)
    (tsInsert_equal (by simp [initSched, *]))]
  refine ⟨_, rfl, rfl, rfl, rfl, ?_, ?_, ?_, ?_, ?_⟩ <;>
    simp [initSched, initialMinVruntime, *]

lemma Booted.sound {boot : Boot} {s : Sched} (booted : Booted boot s) : Sound s := by
  obtain ⟨_, tty, testA, _, nodup⟩ := boot
  have order : s.queue = [testA, tty] := by
    unfold Sched.queue
    rw [booted.timeline]
    rfl
  simp only [nodup_cons, mem_cons, not_mem_nil, or_false, not_or] at nodup
  constructor
  · rw [booted.timeline]
    exact ⟨rfl, 1, 0, rfl, ⟨rfl, rfl, rfl, rfl⟩, rfl⟩
  · simp [order, Ne.symm nodup.2.2.1.1]
  · simp [order, nodup.1]
  · simp [order, booted.current]

def Call.children : Call → List Task
  | .doFork p => [p]
  | _ => []

inductive Reachable (allowed : Sched → Call → Sched → Prop) (boot : Boot) (memory : Sched) :
    Sched → List Task → Prop
  | start {s : Sched} (started : boot.start memory = some s) :
      Reachable allowed boot memory s boot.enqueued
  | step {s t : Sched} {known : List Task} (call : Call)
      (reached : Reachable allowed boot memory s known)
      (fresh : ∀ p, call = .doFork p → p ∉ boot.init :: known)
      (returned : call.run s = some t) (isAllowed : allowed s call t) :
      Reachable allowed boot memory t (call.children ++ known)

variable {allowed : Sched → Call → Sched → Prop} {boot : Boot} {memory s : Sched}
  {known : List Task}

lemma booted_of_start (started : boot.start memory = some s) : Booted boot s := by
  obtain ⟨_, res, facts⟩ := booted_start boot memory
  rw [started] at res
  cases res
  exact facts

lemma Reachable.sound (hit : Reachable allowed boot memory s known) :
    Sound s ∧ ∀ e ∈ s.queue, e ∈ known := by
  induction hit with
  | start started =>
    have booted := booted_of_start started
    refine ⟨booted.sound, ?_⟩
    unfold Sched.queue Boot.enqueued
    rw [booted.timeline]
    simp [bootTimeline, ColorTree.inorder]
  | step call hit fresh ran isAllowed ih =>
    obtain ⟨sound, queued⟩ := ih
    have notQueued : ∀ p, call = .doFork p → p ∉ Sched.queue _ := fun p forks mem =>
      fresh p forks (mem_cons_of_mem _ (queued p mem))
    obtain ⟨soundAfter, frame⟩ := run_frame sound notQueued ran
    refine ⟨soundAfter, fun e mem => ?_⟩
    by_cases isChild : e ∈ call.children
    · exact mem_append_left _ isChild
    refine mem_append_right _ (queued e ((frame e ?_).1 mem))
    rintro p rfl rfl
    exact isChild mem_cons_self

lemma Reachable.testD_lost (hit : Reachable allowed boot memory s known) :
    boot.testD ∈ known ∧ boot.testD ∉ s.queue ∧ s.taskState boot.testD = .running := by
  induction hit with
  | start started =>
    have booted := booted_of_start started
    refine ⟨by simp [Boot.enqueued], ?_, booted.stateD⟩
    have distinct := boot.nodup
    simp only [nodup_cons, mem_cons, not_mem_nil, or_false, not_or] at distinct
    unfold Sched.queue
    rw [booted.timeline]
    simp [bootTimeline, ColorTree.inorder, Ne.symm distinct.2.2.1.2, Ne.symm distinct.2.2.2.1]
  | step call hit fresh ran isAllowed ih =>
    obtain ⟨isKnown, off, runs⟩ := ih
    obtain ⟨sound, queued⟩ := hit.sound
    have ne : ∀ p, call = .doFork p → boot.testD ≠ p := by
      rintro p forks rfl
      exact fresh _ forks (mem_cons_of_mem _ isKnown)
    have notQueued : ∀ p, call = .doFork p → p ∉ Sched.queue _ := fun p forks mem =>
      fresh p forks (mem_cons_of_mem _ (queued p mem))
    obtain ⟨-, frame⟩ := run_frame sound notQueued ran
    obtain ⟨inside, sameState⟩ := frame boot.testD ne
    exact ⟨mem_append_right _ isKnown, fun mem => off (inside mem), sameState.trans runs⟩

def NoneLost (s : Sched) (known : List Task) : Prop :=
  ∀ p ∈ known, s.taskState p = .running → s.queue.count p = 1

/-- In every state reachable from start-up a running task that was enqueued is missing from
the timeline. -/
theorem runnable_lost (reached : Reachable (fun _ _ _ => True) boot memory s known) :
    ¬NoneLost s known := by
  intro noneLost
  obtain ⟨isKnown, off, runs⟩ := reached.testD_lost
  have once := noneLost boot.testD isKnown runs
  rw [count_eq_zero.mpr off] at once
  cases once

def firstBoot : Boot where
  init := 1
  tty := 2
  testA := 3
  testD := 4
  nodup := by decide

def zeroMemory : Sched where
  jiffies := 0
  ticks := 0
  current := 0
  taskTicks := fun _ => 0
  taskState := fun _ => .running
  pid := fun _ => 0
  vruntime := fun _ => 0
  minVruntime := 0
  timeline := .leaf
  pidmap := initPidmap

theorem runnable_lost_firstBoot :
    ∃ s, Reachable (fun _ _ _ => True) firstBoot zeroMemory s firstBoot.enqueued ∧
      ¬NoneLost s firstBoot.enqueued := by
  obtain ⟨s, started, -⟩ := booted_start firstBoot zeroMemory
  exact ⟨s, .start started, runnable_lost (.start started)⟩

/-- Start-up leaves `TestA` and `tty` on the timeline, and `TestD` running without a place
on it. -/
theorem testD_missing_firstBoot : ∃ s, firstBoot.start zeroMemory = some s ∧
    s.queue = [firstBoot.testA, firstBoot.tty] ∧ s.taskState firstBoot.testD = .running ∧
    ¬NoneLost s firstBoot.enqueued := by
  obtain ⟨s, started, booted⟩ := booted_start firstBoot zeroMemory
  have order : s.queue = [firstBoot.testA, firstBoot.tty] := by
    unfold Sched.queue
    rw [booted.timeline]
    rfl
  refine ⟨s, started, order, booted.stateD, ?_⟩
  intro noneLost
  have once := noneLost firstBoot.testD (by decide) booted.stateD
  rw [order] at once
  revert once
  decide

/-- In every state reachable from start-up, whatever the order of its keys, the search of
`ts_insert` makes at most twice as many comparisons as the logarithm of the queue's length and
one. -/
theorem compared_logarithmic (reached : Reachable allowed boot memory s known) (key : BitVec 32) :
    2 ^ (compared s.vruntime key s.timeline).length ≤ (s.queue.length + 1) ^ 2 :=
  two_pow_searched_le reached.sound.1.redBlack

theorem compared_logarithmic_firstBoot : ∃ s, firstBoot.start zeroMemory = some s ∧
    2 ^ (compared s.vruntime 0 s.timeline).length ≤ (s.queue.length + 1) ^ 2 := by
  obtain ⟨s, started, -⟩ := booted_start firstBoot zeroMemory
  have reached : Reachable (fun _ _ _ => True) firstBoot zeroMemory s _ := .start started
  exact ⟨s, started, compared_logarithmic reached 0⟩

def doForkCalls (p : Task) (s : Sched) : Option (BitVec 32 × List Task × Sched) :=
  if p = 0 then none
  else
    let (pid, pidmap) := getPidmap s.pidmap
    let named : Sched := { s with pidmap := pidmap, pid := update s.pid p pid }
    -- `p->pid` is an `unsigned int`
    if pid.toNat < 0 then some (-1, [], named)
    else
      let child : Sched :=
        { named with
          taskTicks := update s.taskTicks p (s.taskTicks s.current)
          vruntime := update s.vruntime p 10
          taskState := update s.taskState p .running }
      (cfsEnqueue p 0 child).map fun queued => (pid, [p], queued)

lemma doForkCalls_eq_doFork (p : Task) (s : Sched) :
    (doForkCalls p s).map (fun (ret, _, after) => (ret, after)) = doFork p s := by
  simp only [doForkCalls, doFork, Nat.not_lt_zero, if_false]
  split_ifs
  · rfl
  · rw [Option.map_map]
    rfl

structure ForkClean (s : Sched) (ret : BitVec 32) (enqueued : List Task) (after : Sched) :
    Prop where
  fails : ret.toInt < 0 ↔ enqueued = []
  clean : ret.toInt < 0 → after.pidmap = s.pidmap ∧ after.timeline = s.timeline
  forks : 0 ≤ ret.toInt →
    ∃ child, enqueued = [child] ∧ after.pid child = ret ∧ after.taskState child = .running

lemma toInt_getPidmap {map : Pidmap} (room : ¬map.Full) : 0 ≤ (getPidmap map).1.toInt := by
  rcases getPidmap_spec map with ⟨full, -⟩ | ⟨p, _, below, _, -, -, number, -⟩
  · exact absurd full room
  unfold maxPidnum at below
  rw [BitVec.toInt_eq_toNat_cond, number, if_pos (by omega)]
  exact Int.natCast_nonneg _

theorem fork_clean_iff {p : Task} {s after : Sched} {ret : BitVec 32} {enqueued : List Task}
    (returned : doForkCalls p s = some (ret, enqueued, after)) :
    ForkClean s ret enqueued after ↔ ¬s.pidmap.Full := by
  simp only [doForkCalls, Nat.not_lt_zero, if_false] at returned
  split_ifs at returned
  obtain ⟨_, isQueued, same⟩ := Option.map_eq_some_iff.mp returned
  cases same
  constructor
  · rintro ⟨fails, -, -⟩ full
    rcases getPidmap_spec s.pidmap with ⟨-, result⟩ | ⟨p, _, _, _, -, clear, -⟩
    · rw [result] at fails
      have negative : (-1 : BitVec 32).toInt < 0 := by decide
      exact absurd (fails.mp negative) (cons_ne_nil p [])
    · rw [full _ (by unfold maxPidnum at *; omega)] at clear
      cases clear
  · intro notFull
    have nonneg := toInt_getPidmap notFull
    obtain ⟨_, -, rfl⟩ := Option.map_eq_some_iff.mp isQueued
    refine ⟨iff_of_false (not_lt.mpr nonneg) (cons_ne_nil p []), ?_, ?_⟩
    · exact fun negative => absurd negative (not_lt.mpr nonneg)
    · exact fun _ => ⟨p, rfl, update_self p _ s.pid, update_self p _ s.taskState⟩

theorem fork_clean_zeroMemory :
    ∃ ret enqueued after, doForkCalls 5 zeroMemory = some (ret, enqueued, after) ∧
      ForkClean zeroMemory ret enqueued after := by
  have forks : (doForkCalls 5 zeroMemory).isSome = true := rfl
  obtain ⟨⟨ret, enqueued, after⟩, returned⟩ := Option.isSome_iff_exists.mp forks
  have hasFree : ¬zeroMemory.pidmap.Full := fun full => absurd (full 1 (by decide)) (by decide)
  exact ⟨ret, enqueued, after, returned, (fork_clean_iff returned).mpr hasFree⟩

def fullPidmap : Pidmap := ⟨replicate (maxPidnum / 8) 0xff, length_replicate⟩

lemma full_fullPidmap : fullPidmap.Full :=
  Pidmap.full_of_bytes fun _ mem => List.eq_of_mem_replicate mem

theorem fork_fails_enqueued :
    let crowded : Sched := { zeroMemory with pidmap := fullPidmap }
    ∃ after, doForkCalls 5 crowded = some (-1, [5], after) ∧ after.queue = [5] ∧
      ¬ForkClean crowded (-1) [5] after := by
  have exhausted : getPidmap fullPidmap = (-1, fullPidmap) := by
    rcases getPidmap_spec fullPidmap with ⟨-, result⟩ | ⟨p, _, _, _, -, clear, -⟩
    · exact result
    · rw [full_fullPidmap _ (by unfold maxPidnum at *; omega)] at clear
      cases clear
  simp only [doForkCalls, exhausted]
  exact ⟨_, rfl, rfl, fun clean => absurd (clean.fails.mp (by decide)) (cons_ne_nil 5 [])⟩

end PrettyOS.Kernel
