import PrettyOS.Kernel.Wait
import PrettyOS.Library.Runs

/-!
Contract: whether the wait queues of `kernel/wait.c` hold their waiters.
-/

namespace PrettyOS.Kernel

open Library

inductive QueueCall where
  | addWaitQueue (wait : Nat)
  | removeWaitQueue (wait : Nat)

def queueStep (fuel wq : Nat) : QueueCall → System → Option (Unit × System)
  | .addWaitQueue wait, k => (addWaitQueue wq wait k).map fun after => ((), after)
  | .removeWaitQueue wait, k => (removeWaitQueue fuel wq wait k).map fun after => ((), after)

def QueueCall.waiters : QueueCall → List Nat → List Nat
  | .addWaitQueue wait, queued => wait :: queued
  | .removeWaitQueue wait, queued => queued.erase wait

def QueueAdmitted : List QueueCall → List Nat → Prop
  | [], _ => True
  | call :: rest, queued =>
      (match call with
        | .addWaitQueue wait => wait ≠ 0 ∧ wait ∉ queued
        | .removeWaitQueue wait => wait ∈ queued) ∧
        QueueAdmitted rest (call.waiters queued)

def SleepsOn (k : System) (waiters : List Nat) (task : Task) : Prop :=
  task ≠ 0 ∧ (∃ wait ∈ waiters, k.waitTask wait = task) ∧
    (k.sched.taskState task = .interruptible ∨ k.sched.taskState task = .uninterruptible)

def HoldsWaiters (wq : Nat) (calls : List QueueCall) (k : System) : Prop :=
  ∃ fuel results after woken, runSteps (queueStep fuel wq) calls k = some (results, after) ∧
    wakeUp fuel wq after = some woken ∧
    ∀ task, let waiters := calls.foldl (fun queued call => call.waiters queued) []
      (SleepsOn after waiters task → woken.sched.taskState task = .running) ∧
      (¬ SleepsOn after waiters task → woken.sched.taskState task = after.sched.taskState task)

variable {k after : System} {fuel wq wait : Nat}

lemma addWaitQueue_empty (empty : k.head wq = 0) : addWaitQueue wq wait k = none := by
  rw [addWaitQueue, if_neg (not_not_intro empty)]

lemma wakeUp_empty (empty : k.head wq = 0) : wakeUp fuel wq k = some k := by
  rw [wakeUp, wakeQueue, if_pos (Or.inr empty)]

/-- Starting from an empty queue, the waiters are held exactly when no call is made: the first
one adds a waiter to the empty queue. -/
theorem holdsWaiters_iff (wq : Nat) (calls : List QueueCall) (k : System) (empty : k.head wq = 0)
    (admitted : QueueAdmitted calls []) : HoldsWaiters wq calls k ↔ calls = [] := by
  constructor
  · rintro ⟨_, _, _, _, returned, -⟩
    cases calls with
    | nil => rfl
    | cons call rest =>
      exfalso
      obtain ⟨_, t, _, isStep, -⟩ := runSteps_cons returned
      cases call with
      | addWaitQueue wait =>
        obtain ⟨_, added, -⟩ := Option.map_eq_some_iff.mp isStep
        cases (addWaitQueue_empty empty).symm.trans added
      | removeWaitQueue wait => exact absurd admitted.1 List.not_mem_nil
  · rintro rfl
    refine ⟨0, [], k, k, rfl, wakeUp_empty empty, fun task => ⟨?_, fun _ => rfl⟩⟩
    rintro ⟨-, ⟨wait, member, -⟩, -⟩
    exact absurd member List.not_mem_nil

theorem holdsWaiters_iff_bootSystem :
    QueueAdmitted [.addWaitQueue 1, .addWaitQueue 2, .removeWaitQueue 1] [] ∧
      (HoldsWaiters 9 [.addWaitQueue 1, .addWaitQueue 2, .removeWaitQueue 1] bootSystem ↔
        [QueueCall.addWaitQueue 1, .addWaitQueue 2, .removeWaitQueue 1] = []) := by
  have admitted : QueueAdmitted [.addWaitQueue 1, .addWaitQueue 2, .removeWaitQueue 1] [] := by
    simp [QueueAdmitted, QueueCall.waiters]
  exact ⟨admitted, holdsWaiters_iff 9 _ bootSystem rfl admitted⟩

/-- The first task that goes to sleep on a queue reads through the null pointer. -/
theorem not_holdsWaiters_first :
    QueueAdmitted [.addWaitQueue 1] [] ∧ bootSystem.head 9 = 0 ∧
      addWaitQueue 9 1 bootSystem = none ∧ ¬ HoldsWaiters 9 [.addWaitQueue 1] bootSystem := by
  refine ⟨?_, rfl, addWaitQueue_empty rfl, ?_⟩
  · simp [QueueAdmitted]
  · rintro ⟨_, _, _, _, returned, -⟩
    cases returned

end PrettyOS.Kernel
