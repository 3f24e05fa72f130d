import PrettyOS.Kernel.SchedOrder

/-!
Contract: the wait queues of `kernel/wait.c` beside the scheduler, and tasks that sleep.

A `struct wait_queue *` is a number, with `0` for the null pointer, and so is a
`struct wait_queue **`. `none` is a dereference of a null pointer, or a loop that has run out
of fuel.
-/

namespace PrettyOS.Kernel

open Function Option

structure System where
  sched : Sched
  waitTask : Nat → Task
  waitNext : Nat → Nat
  head : Nat → Nat

def addWaitQueue (wq wait : Nat) (k : System) : Option System :=
  if k.head wq ≠ 0 then
    some { k with
      waitNext := update k.waitNext wait 0
      head := update k.head wq wait }
  else none

def entryBefore (waitNext : Nat → Nat) (wait : Nat) : Nat → Nat → Option Nat
  | 0, _ => none
  | fuel + 1, tmp =>
      if tmp = 0 then none
      else if waitNext tmp = wait then some tmp
      else entryBefore waitNext wait fuel (waitNext tmp)

def moveHead (wq wait : Nat) (k : System) : System :=
  if k.head wq = wait then { k with head := update k.head wq (k.waitNext wait) } else k

def removeWaitQueue (fuel wq wait : Nat) (k : System) : Option System :=
  let moved := moveHead wq wait k
  if k.head wq = wait ∧ k.waitNext wait = wait then
    some { moved with
      head := update moved.head wq 0
      waitNext := update moved.waitNext wait 0 }
  else
    (entryBefore moved.waitNext wait fuel wait).map fun tmp =>
      { moved with
        waitNext := update
          (update moved.waitNext tmp (moved.waitNext wait)) wait 0 }

def wakeEntry (wakes : TaskState → Bool) (tmp : Nat) (k : System) : System :=
  let task := k.waitTask tmp
  if task ≠ 0 ∧ wakes (k.sched.taskState task) = true then
    { k with sched := k.sched.setTaskState task .running }
  else k

def wakeFrom (wakes : TaskState → Bool) (wq : Nat) : Nat → Nat → System → Option System
  | 0, _, _ => none
  | fuel + 1, tmp, k =>
      if k.waitNext tmp = 0 then some (wakeEntry wakes tmp k)
      else if k.waitNext tmp = k.head wq then some (wakeEntry wakes tmp k)
      else wakeFrom wakes wq fuel (k.waitNext tmp) (wakeEntry wakes tmp k)

def wakeQueue (wakes : TaskState → Bool) (fuel wq : Nat) (k : System) : Option System :=
  if wq = 0 ∨ k.head wq = 0 then some k else wakeFrom wakes wq fuel (k.head wq) k

def wakeUp (fuel wq : Nat) (k : System) : Option System :=
  wakeQueue (fun state => state = .interruptible || state = .uninterruptible) fuel wq k

def wakeUpInterruptible (fuel wq : Nat) (k : System) : Option System :=
  wakeQueue (fun state => state = .interruptible) fuel wq k

def System.schedule (k : System) : Option System :=
  (PrettyOS.Kernel.schedule k.sched).map fun sched => { k with sched := sched }

def sleepOnEnter (wq wait : Nat) (state : TaskState) (k : System) : Option System :=
  if wq = 0 then some k
  else
    let entry := { k with
      waitTask := update k.waitTask wait k.sched.current
      waitNext := update k.waitNext wait 0
      sched := k.sched.setTaskState k.sched.current state }
    (addWaitQueue wq wait entry).bind System.schedule

def sleepOn (fuel wq wait : Nat) (state : TaskState) (k : System) : Option System :=
  (sleepOnEnter wq wait state k).bind fun asleep =>
    if wq = 0 then some asleep else removeWaitQueue fuel wq wait asleep

inductive Event where
  | scheduler (call : Call)
  | sleepOnEnter (wq wait : Nat) (state : TaskState)
  | removeWaitQueue (wq wait : Nat)
  | wakeUp (wq : Nat)
  | wakeUpInterruptible (wq : Nat)
  | block (p : Task)
  | unblock (p : Task)

def Event.run (fuel : Nat) : Event → System → Option System
  | .scheduler call, k => (call.run k.sched).map fun sched => { k with sched := sched }
  | .sleepOnEnter wq wait state, k => PrettyOS.Kernel.sleepOnEnter wq wait state k
  | .removeWaitQueue wq wait, k => PrettyOS.Kernel.removeWaitQueue fuel wq wait k
  | .wakeUp wq, k => PrettyOS.Kernel.wakeUp fuel wq k
  | .wakeUpInterruptible wq, k => PrettyOS.Kernel.wakeUpInterruptible fuel wq k
  | .block p, k => (PrettyOS.Kernel.block p k.sched).map fun sched => { k with sched := sched }
  | .unblock p, k => some { k with sched := PrettyOS.Kernel.unblock p k.sched }

def Step (sleeper : Task) (k after : System) : Prop :=
  ∃ fuel, ∃ event : Event, event.run fuel k = some after ∧
    ∀ p, event = .scheduler (.doFork p) → p ≠ sleeper ∧ p ∉ k.sched.queue

variable {k after : System} {s t : Sched} {sleeper p : Task}

def KeepsOff (sleeper : Task) (s t : Sched) : Prop :=
  Sound s → Sound t ∧ (sleeper ∈ t.queue → sleeper ∈ s.queue)

lemma KeepsOff.refl (s : Sched) : KeepsOff sleeper s s := fun sound => ⟨sound, id⟩

lemma KeepsOff.trans {u : Sched} (first : KeepsOff sleeper s t) (second : KeepsOff sleeper t u) :
    KeepsOff sleeper s u := fun sound =>
  ⟨(second (first sound).1).1, fun mem => (first sound).2 ((second (first sound).1).2 mem)⟩

lemma keepsOff_setTaskState (s : Sched) (p : Task) (state : TaskState) :
    KeepsOff sleeper s (s.setTaskState p state) := fun sound =>
  ⟨⟨sound.redBlack, sound.nodup, sound.nonnull, sound.current⟩, id⟩

lemma keepsOff_schedule (ran : schedule s = some t) : KeepsOff sleeper s t := by
  intro sound
  obtain ⟨soundAfter, -, inside, -⟩ := schedule_frame sound ran
  exact ⟨soundAfter, inside sleeper⟩

lemma keepsOff_wakeEntry (wakes : TaskState → Bool) (tmp : Nat) (k : System) :
    KeepsOff sleeper k.sched (wakeEntry wakes tmp k).sched := by
  unfold wakeEntry
  dsimp only
  split_ifs
  · exact keepsOff_setTaskState _ _ _
  · exact KeepsOff.refl _

variable {wakes : TaskState → Bool} {wq fuel wait : Nat}

lemma keepsOff_wakeFrom {tmp : Nat} (ran : wakeFrom wakes wq fuel tmp k = some after) :
    KeepsOff sleeper k.sched after.sched := by
  induction fuel generalizing tmp k with
  | zero => cases ran
  | succ fuel ih =>
    unfold wakeFrom at ran
    split_ifs at ran
    · cases ran
      exact keepsOff_wakeEntry wakes tmp k
    · cases ran
      exact keepsOff_wakeEntry wakes tmp k
    · exact (keepsOff_wakeEntry wakes tmp k).trans (ih ran)

lemma keepsOff_wakeQueue (ran : wakeQueue wakes fuel wq k = some after) :
    KeepsOff sleeper k.sched after.sched := by
  unfold wakeQueue at ran
  split_ifs at ran
  · cases ran
    exact KeepsOff.refl _
  · exact keepsOff_wakeFrom ran

lemma sched_addWaitQueue (ran : addWaitQueue wq wait k = some after) : after.sched = k.sched := by
  unfold addWaitQueue at ran
  split_ifs at ran
  cases ran
  rfl

lemma sched_moveHead (wq wait : Nat) (k : System) : (moveHead wq wait k).sched = k.sched := by
  unfold moveHead
  split_ifs <;> rfl

lemma sched_removeWaitQueue
    (ran : removeWaitQueue fuel wq wait k = some after) : after.sched = k.sched := by
  unfold removeWaitQueue at ran
  dsimp only at ran
  split_ifs at ran
  · cases ran
    exact sched_moveHead wq wait k
  · obtain ⟨_, -, rfl⟩ := map_eq_some_iff.mp ran
    exact sched_moveHead wq wait k

lemma sleepOnEnter_cases {state : TaskState} (ran : sleepOnEnter wq wait state k = some after) :
    (wq = 0 ∧ after = k) ∨
      schedule (k.sched.setTaskState k.sched.current state) = some after.sched := by
  unfold sleepOnEnter at ran
  split_ifs at ran with noQueue
  · cases ran
    exact Or.inl ⟨noQueue, rfl⟩
  obtain ⟨_, queued, scheduled⟩ := bind_eq_some_iff.mp ran
  obtain ⟨sched, res, rfl⟩ := map_eq_some_iff.mp scheduled
  rw [sched_addWaitQueue queued] at res
  exact Or.inr res

lemma keepsOff_step (step : Step sleeper k after) : KeepsOff sleeper k.sched after.sched := by
  obtain ⟨_, event, returned, fresh⟩ := step
  cases event with
  | scheduler call =>
    obtain ⟨sched, ran, rfl⟩ := map_eq_some_iff.mp returned
    intro sound
    obtain ⟨soundAfter, frame⟩ := run_frame sound (fun p forks => (fresh p (by rw [forks])).2) ran
    exact ⟨soundAfter, (frame sleeper fun p forks => (fresh p (by rw [forks])).1.symm).1⟩
  | sleepOnEnter wq wait state =>
    rcases sleepOnEnter_cases returned with ⟨-, rfl⟩ | scheduled
    · exact KeepsOff.refl _
    · exact (keepsOff_setTaskState _ _ _).trans (keepsOff_schedule scheduled)
  | removeWaitQueue wq wait =>
    rw [sched_removeWaitQueue returned]
    exact KeepsOff.refl _
  | wakeUp wq => exact keepsOff_wakeQueue returned
  | wakeUpInterruptible wq => exact keepsOff_wakeQueue returned
  | block p =>
    obtain ⟨sched, ran, rfl⟩ := map_eq_some_iff.mp returned
    exact (keepsOff_setTaskState _ _ _).trans (keepsOff_schedule ran)
  | unblock p =>
    cases returned
    exact keepsOff_setTaskState _ _ _

lemma keepsOff_run (run : Relation.ReflTransGen (Step sleeper) k after) :
    KeepsOff sleeper k.sched after.sched := by
  induction run with
  | refl => exact KeepsOff.refl _
  | tail _ step ih => exact ih.trans (keepsOff_step step)

def LeavesCpu (k asleep : System) : Prop :=
  (∃ wq wait state, wq ≠ 0 ∧ (state = .interruptible ∨ state = .uninterruptible) ∧
      sleepOnEnter wq wait state k = some asleep) ∨
    Event.run 0 (.block k.sched.current) k = some asleep

def Schedulable (k : System) (p : Task) : Prop :=
  k.sched.taskState p = .running → p ∈ k.sched.queue

lemma off_of_leavesCpu {asleep : System} (sound : Sound k.sched) (leaves : LeavesCpu k asleep) :
    Sound asleep.sched ∧ k.sched.current ∉ asleep.sched.queue := by
  have offOf : ∀ {state : TaskState} {t : Sched}, state ≠ .running →
      schedule (k.sched.setTaskState k.sched.current state) = some t →
      Sound t ∧ k.sched.current ∉ t.queue := by
    intro state t asleepState returned
    have soundBefore := (@keepsOff_setTaskState 0 k.sched k.sched.current state sound).1
    obtain ⟨soundAfter, -, -, -, off⟩ := schedule_frame soundBefore returned
    refine ⟨soundAfter, off ?_⟩
    show update k.sched.taskState k.sched.current state k.sched.current ≠ _
    rwa [update_self]
  rcases leaves with ⟨_, _, state, isQueue, sleeps, returned⟩ | blocked
  · have scheduled := (sleepOnEnter_cases returned).resolve_left fun noQueue => isQueue noQueue.1
    refine offOf ?_ scheduled
    rcases sleeps with rfl | rfl <;> decide
  · obtain ⟨sched, ran, rfl⟩ := map_eq_some_iff.mp blocked
    exact offOf (by decide) ran

/-- After a task has left the processor by sleeping, whatever happens, it is not schedulable
once it is running again. -/
theorem woken_not_schedulable {asleep woken : System} (sound : Sound k.sched)
    (leaves : LeavesCpu k asleep) (run : Relation.ReflTransGen (Step k.sched.current) asleep woken)
    (awake : woken.sched.taskState k.sched.current = .running) :
    ¬Schedulable woken k.sched.current := by
  intro schedulable
  obtain ⟨soundAsleep, off⟩ := off_of_leavesCpu sound leaves
  exact off ((keepsOff_run run soundAsleep).2 (schedulable awake))

def bootSystem : System where
  sched := bootState
  waitTask := fun _ => 0
  waitNext := fun _ => 0
  head := fun _ => 0

def blockedSystem : System :=
  (Event.run 0 (.block firstBoot.testA) bootSystem).get (by decide +kernel)

def unblockedSystem : System :=
  { blockedSystem with sched := unblock firstBoot.testA blockedSystem.sched }

theorem woken_not_schedulable_testA :
    unblockedSystem.sched.taskState firstBoot.testA = .running ∧
      ¬Schedulable unblockedSystem firstBoot.testA := by
  have sound := (booted_of_start start_bootState).sound
  have isCurrent : bootSystem.sched.current = firstBoot.testA :=
    (booted_of_start start_bootState).current
  have leaves : LeavesCpu bootSystem blockedSystem := by
    refine Or.inr ?_
    rw [isCurrent]
    exact (some_get _).symm
  have wakes : Step bootSystem.sched.current blockedSystem unblockedSystem :=
    ⟨0, .unblock firstBoot.testA, rfl, nofun⟩
  have awake : unblockedSystem.sched.taskState firstBoot.testA = .running := by decide +kernel
  refine ⟨awake, ?_⟩
  rw [← isCurrent] at awake ⊢
  exact woken_not_schedulable sound leaves (Relation.ReflTransGen.single wakes) awake

/-- `TestA` blocks and is unblocked: it is running, and only `tty` is on the timeline. -/
theorem unblocked_off_timeline : bootSystem.sched.current = firstBoot.testA ∧
    firstBoot.testA ∈ bootSystem.sched.queue ∧
    Event.run 0 (.block firstBoot.testA) bootSystem = some blockedSystem ∧
    Event.run 0 (.unblock firstBoot.testA) blockedSystem = some unblockedSystem ∧
    unblockedSystem.sched.taskState firstBoot.testA = .running ∧
    unblockedSystem.sched.queue = [firstBoot.tty] :=
  ⟨by decide +kernel, by decide +kernel, (some_get _).symm, rfl, by decide +kernel,
    by decide +kernel⟩

def doExit (s : Sched) : Option Sched := schedule (s.setTaskState s.current .zombie)

/-- `do_exit` returns exactly if the timeline holds another task, and whatever is called then, the
task never gets the processor back. -/
theorem exited_never_runs (sound : Sound k.sched) :
    ((∃ s, doExit k.sched = some s) ↔ k.sched.others ≠ []) ∧
      ∀ s later, doExit k.sched = some s →
        Relation.ReflTransGen (Step k.sched.current) { k with sched := s } later →
        later.sched.current ≠ k.sched.current := by
  have soundBefore := (@keepsOff_setTaskState 0 k.sched k.sched.current .zombie sound).1
  refine ⟨schedule_returns_iff soundBefore, fun s later exits run again => ?_⟩
  obtain ⟨soundAfter, -, -, -, off⟩ := schedule_frame soundBefore exits
  obtain ⟨soundLater, stays⟩ := keepsOff_run run soundAfter
  refine off ?_ (stays (again ▸ soundLater.current))
  simp [Sched.setTaskState]

theorem exited_never_runs_bootSystem : ∃ s, doExit bootSystem.sched = some s := by
  have booted := booted_of_start start_bootState
  refine (exited_never_runs booted.sound).1.mpr ?_
  rw [Sched.others, Sched.queue, show bootSystem.sched = bootState from rfl, booted.timeline,
    booted.current]
  decide

end PrettyOS.Kernel
