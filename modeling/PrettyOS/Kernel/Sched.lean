import PrettyOS.Kernel.Pid
import PrettyOS.Lib.RbTree

/-!
Contract: the scheduler of `kernel/sched.c`, `kernel/sched_fair.c` and `kernel/clock.c`, and
the parts of `kernel/fork.c` and `init/main.c` that put tasks on its queue.

A `struct task_struct *` is a number, with `0` for the null pointer, and it stands for its
`sched_entity` too. Every task has the one scheduling class there is. `none` is a
dereference of a null pointer.
-/

namespace PrettyOS.Kernel

open Library.AvlTree (Side)
open Library.RedBlackTree Function
open Lib

abbrev Task := Nat

inductive TaskState where
  | running
  | interruptible
  | uninterruptible
  | zombie
  | stopped
deriving DecidableEq, Repr

def initialMinVruntime : BitVec 32 := 100

def nrProcess : Nat := 4

def kernelPrior : Int := 25

structure Sched where
  jiffies : Nat
  ticks : Nat
  current : Task
  taskTicks : Task → Int
  taskState : Task → TaskState
  pid : Task → BitVec 32
  vruntime : Task → BitVec 32
  minVruntime : BitVec 32
  timeline : ColorTree Task
  pidmap : Pidmap

namespace Sched

def queue (s : Sched) : List Task := s.timeline.inorder

def others (s : Sched) : List Task := s.queue.erase s.current

def setVruntime (s : Sched) (p : Task) (vruntime : BitVec 32) : Sched :=
  { s with vruntime := update s.vruntime p vruntime }

def setTaskState (s : Sched) (p : Task) (state : TaskState) : Sched :=
  { s with taskState := update s.taskState p state }

end Sched

def tsDirection (vruntime : Task → BitVec 32) (key : BitVec 32) (this : Task) : Option Side :=
  if (key - vruntime this).toInt < 0 then some .left
  else if (key - vruntime this).toInt > 0 then some .right
  else none

def tsInsert (vruntime : Task → BitVec 32) (timeline : ColorTree Task) (se : Task) :
    Option (Int × ColorTree Task) :=
  match seek (tsDirection vruntime (vruntime se)) timeline [] with
  | none => some (0, timeline)
  | some place => (rbInsertColor place (.node .red .leaf se .leaf)).map fun tree => (1, tree)

def tsEarse (timeline : ColorTree Task) (se : Task) : Option (ColorTree Task) :=
  (locate se timeline []).bind rbErase

def tsLeftmost (timeline : ColorTree Task) : Option Task := rbFirst timeline

def cfsEnqueue (p : Task) (wakeup : Int) (s : Sched) : Option Sched :=
  let keyed := if wakeup = 0 then s.setVruntime p (s.vruntime p + s.minVruntime) else s
  (tsInsert keyed.vruntime keyed.timeline p).map fun inserted =>
    { keyed with timeline := inserted.2 }

def cfsDequeue (p : Task) (sleep : Int) (s : Sched) : Option Sched :=
  let keyed := if sleep = 1 then s.setVruntime p (s.vruntime p - s.minVruntime) else s
  (tsEarse keyed.timeline p).map fun timeline => { keyed with timeline := timeline }

def cfsNextTask (s : Sched) : Option (Task × Sched) :=
  let based := s.setVruntime s.current (s.vruntime s.current - s.minVruntime)
  match cfsDequeue s.current 0 based with
  | none => none
  | some rest =>
      match tsLeftmost rest.timeline with
      | none => none
      | some tsk =>
          let moved := { rest with minVruntime := rest.vruntime tsk }
          if moved.taskState moved.current ≠ .running then some (tsk, moved)
          else (cfsEnqueue moved.current 0 moved).map fun requeued => (tsk, requeued)

def schedule (s : Sched) : Option Sched :=
  (cfsNextTask s).map fun picked =>
    if picked.1 ≠ 0 then { picked.2 with current := picked.1 } else picked.2

def countTick (s : Sched) : Sched :=
  { s with
    jiffies := s.jiffies + 1
    ticks := s.ticks + 1
    taskTicks := update s.taskTicks s.current (s.taskTicks s.current - 1)
    vruntime := update s.vruntime s.current (s.vruntime s.current + 1) }

def clockHandler (kReenter : Int) (s : Sched) : Option Sched :=
  let counted := countTick s
  if kReenter ≠ 0 then some counted
  else if counted.jiffies % nrProcess = 0 then schedule counted
  else some counted

def doFork (p : Task) (s : Sched) : Option (BitVec 32 × Sched) :=
  if p = 0 then none
  else
    let (pid, pidmap) := getPidmap s.pidmap
    let child : Sched :=
      { s with
        pidmap := pidmap
        pid := update s.pid p pid
        taskTicks := update s.taskTicks p (s.taskTicks s.current)
        vruntime := update s.vruntime p 10
        taskState := update s.taskState p .running }
    (cfsEnqueue p 0 child).map fun queued => (pid, queued)

def unblock (p : Task) (s : Sched) : Sched := s.setTaskState p .running

def block (p : Task) (s : Sched) : Option Sched := schedule (s.setTaskState p .interruptible)

def initSched (s : Sched) : Sched :=
  { s with timeline := .leaf, minVruntime := initialMinVruntime, pidmap := initPidmap }

def startTask (sparesInit : Bool) (i : Nat) (tsk : Task) (s : Sched) : Option Sched :=
  let (pid, pidmap) := getPidmap s.pidmap
  let started : Sched :=
    { s with
      pidmap := pidmap
      pid := update s.pid tsk pid
      taskTicks := update s.taskTicks tsk kernelPrior
      vruntime := update s.vruntime tsk i
      taskState := update s.taskState tsk .running }
  if sparesInit && pid = initPid then some started else cfsEnqueue tsk 0 started

def startTasks (sparesInit : Bool) : Nat → List Task → Sched → Option Sched
  | _, [], s => some { s with ticks := 0 }
  | i, tsk :: rest, s =>
      if tsk = 0 then some s
      else (startTask sparesInit i tsk s).bind (startTasks sparesInit (i + 1) rest)

def initTask (threads processes : List Task) (s : Sched) : Option Sched :=
  (startTasks true 0 threads s).bind fun threaded =>
    (startTasks false 0 processes threaded).bind fun started =>
      (tsLeftmost started.timeline).map fun tsk => { started with current := tsk }

inductive Call where
  | clockHandler (kReenter : Int)
  | doFork (p : Task)
  | schedule
deriving DecidableEq, Repr

def Call.run : Call → Sched → Option Sched
  | .clockHandler kReenter, s => PrettyOS.Kernel.clockHandler kReenter s
  | .doFork p, s => (PrettyOS.Kernel.doFork p s).map Prod.snd
  | .schedule, s => PrettyOS.Kernel.schedule s

end PrettyOS.Kernel
