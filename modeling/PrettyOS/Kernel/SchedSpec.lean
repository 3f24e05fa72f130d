import PrettyOS.Kernel.Sched

/-!
Contract: what each operation of the scheduler does to the order of the timeline.
-/

namespace PrettyOS.Kernel

open Library.AvlTree (Side)
open Function List Option
open Library.RedBlackTree
open Lib

structure Sound (s : Sched) : Prop where
  redBlack : s.timeline.IsRedBlack
  nodup : s.queue.Nodup
  nonnull : 0 ∉ s.queue
  current : s.current ∈ s.queue

section Place

variable {vruntime other : Task → BitVec 32} {key : BitVec 32} {this se : Task}
  {tree : ColorTree Task}

lemma toInt_sub_eq_zero {a b : BitVec 32} : (a - b).toInt = 0 ↔ a = b := by
  rw [← BitVec.toInt_zero, BitVec.toInt_inj]
  exact sub_eq_zero

lemma tsDirection_eq_none : tsDirection vruntime key this = none ↔ vruntime this = key := by
  rw [eq_comm (a := vruntime this), ← toInt_sub_eq_zero]
  unfold tsDirection
  generalize (key - vruntime this).toInt = difference
  split_ifs <;> simp <;> omega

lemma tsDirection_eq_left :
    tsDirection vruntime key this = some .left ↔ (key - vruntime this).toInt < 0 := by
  unfold tsDirection
  generalize (key - vruntime this).toInt = difference
  split_ifs <;> simp <;> omega

lemma tsDirection_eq_right :
    tsDirection vruntime key this = some .right ↔ 0 < (key - vruntime this).toInt := by
  unfold tsDirection
  generalize (key - vruntime this).toInt = difference
  split_ifs <;> simp <;> omega

lemma searched_congr {dir turned : Task → Option Side}
    (same : ∀ e ∈ tree.inorder, dir e = turned e) : searched dir tree = searched turned tree := by
  induction tree with
  | leaf => rfl
  | node color left root right ihLeft ihRight =>
    unfold ColorTree.inorder at same
    unfold searched
    rw [same root (by simp), ihLeft fun e mem => same e (by simp [mem]),
      ihRight fun e mem => same e (by simp [mem])]

def compared (vruntime : Task → BitVec 32) (key : BitVec 32) (tree : ColorTree Task) : List Task :=
  searched (tsDirection vruntime key) tree

lemma mem_of_compared (asked : this ∈ compared vruntime key tree) : this ∈ tree.inorder :=
  mem_inorder_of_searched asked

structure Cut (vruntime : Task → BitVec 32) (key : BitVec 32) (tree : ColorTree Task)
    (before behind : List Task) : Prop where
  order : tree.inorder = before ++ behind
  lower : ∀ e ∈ before, ∃ turn ∈ compared vruntime key tree,
    0 < (key - vruntime turn).toInt ∧ (e = turn ∨ [e, turn].Sublist tree.inorder)
  higher : ∀ e ∈ behind, ∃ turn ∈ compared vruntime key tree,
    (key - vruntime turn).toInt < 0 ∧ (e = turn ∨ [turn, e].Sublist tree.inorder)
  below : ∀ turn ∈ compared vruntime key tree, 0 < (key - vruntime turn).toInt → turn ∈ before
  above : ∀ turn ∈ compared vruntime key tree, (key - vruntime turn).toInt < 0 → turn ∈ behind

def Entered (vruntime : Task → BitVec 32) (key : BitVec 32) (tree : ColorTree Task) (se : Task)
    (result : ColorTree Task) : Prop :=
  (result = tree ∧ ∃ this ∈ compared vruntime key tree, vruntime this = key) ∨
    ∃ before behind, Cut vruntime key tree before behind ∧ result.inorder = before ++ se :: behind

lemma tsInsert_spec (fits : tree.IsRedBlack) :
    ∃ code result, tsInsert vruntime tree se = some (code, result) ∧ result.IsRedBlack ∧
      ((code = 0 ∧ result = tree ∧
          ∃ this ∈ compared vruntime (vruntime se) tree, vruntime this = vruntime se) ∨
        (code = 1 ∧ ∃ before behind, Cut vruntime (vruntime se) tree before behind ∧
          result.inorder = before ++ se :: behind)) := by
  unfold tsInsert
  cases hit : seek (tsDirection vruntime (vruntime se)) tree [] with
  | none =>
    obtain ⟨this, asked, stops⟩ := seek_eq_none_iff.mp hit
    exact ⟨0, tree, rfl, fits, .inl ⟨rfl, rfl, this, asked, tsDirection_eq_none.mp stops⟩⟩
  | some place =>
    obtain ⟨result, ran, resultFits, order, ins⟩ := insert_spec fits (plug_seek hit) se
    obtain ⟨_, split, lower, higher⟩ := seek_sides hit
    obtain ⟨_, sameSplit, sides⟩ := seek_turns hit
    rw [append_nil] at split sameSplit
    subst split sameSplit
    refine ⟨1, result, by simp only [ran, map_some], resultFits, .inr
      ⟨rfl, before place, behind place, ⟨order, ?_, ?_, ?_, ?_⟩, ins⟩⟩
    · intro e mem
      obtain ⟨turn, asked, goesRight, at_⟩ := lower e mem
      exact ⟨turn, asked, tsDirection_eq_right.mp goesRight, at_⟩
    · intro e mem
      obtain ⟨turn, asked, goesLeft, at_⟩ := higher e mem
      exact ⟨turn, asked, tsDirection_eq_left.mp goesLeft, at_⟩
    · exact fun turn asked lower => (sides turn asked).1 (tsDirection_eq_right.mpr lower)
    · exact fun turn asked higher => (sides turn asked).2 (tsDirection_eq_left.mpr higher)

variable {result : ColorTree Task} {e : Task}

lemma Entered.congr (same : ∀ e ∈ tree.inorder, vruntime e = other e)
    (entered : Entered vruntime key tree se result) : Entered other key tree se result := by
  have asked : compared vruntime key tree = compared other key tree := by
    apply searched_congr
    intro e mem
    unfold tsDirection
    rw [same e mem]
  have sameTurn : ∀ turn ∈ compared other key tree, vruntime turn = other turn := fun turn mem =>
    same turn (mem_of_compared mem)
  unfold Entered at *
  rw [asked] at entered
  rcases entered with ⟨kept, this, mem, equal⟩ | ⟨before, behind, cut, ins⟩
  · exact .inl ⟨kept, this, mem, by rw [← sameTurn this mem, equal]⟩
  refine .inr ⟨before, behind, ⟨cut.order, ?_, ?_, ?_, ?_⟩, ins⟩
  · intro e mem
    obtain ⟨turn, mem, lower, place⟩ := cut.lower e mem
    rw [asked] at mem
    exact ⟨turn, mem, by rwa [← sameTurn turn mem], place⟩
  · intro e mem
    obtain ⟨turn, mem, higher, place⟩ := cut.higher e mem
    rw [asked] at mem
    exact ⟨turn, mem, by rwa [← sameTurn turn mem], place⟩
  · intro turn mem lower
    exact cut.below turn (asked ▸ mem) (by rwa [sameTurn turn mem])
  · intro turn mem higher
    exact cut.above turn (asked ▸ mem) (by rwa [sameTurn turn mem])

section

variable (entered : Entered vruntime key tree se result)
include entered

lemma Entered.mem (mem : e ∈ result.inorder) : e ∈ tree.inorder ∨ e = se := by
  rcases entered with ⟨rfl, -⟩ | ⟨_, _, cut, ins⟩
  · exact .inl mem
  rw [ins] at mem
  rw [cut.order]
  simp only [mem_append, mem_cons] at mem ⊢
  tauto

lemma Entered.mem_of_mem (mem : e ∈ tree.inorder) : e ∈ result.inorder := by
  rcases entered with ⟨rfl, -⟩ | ⟨_, _, cut, ins⟩
  · exact mem
  rw [cut.order] at mem
  rw [ins]
  simp only [mem_append, mem_cons] at mem ⊢
  tauto

lemma Entered.nodup
    (nodup : tree.inorder.Nodup) (fresh : se ∉ tree.inorder) : result.inorder.Nodup := by
  rcases entered with ⟨rfl, -⟩ | ⟨_, _, cut, ins⟩
  · exact nodup
  rw [cut.order] at nodup fresh
  rw [ins]
  exact nodup_middle.mpr (nodup_cons.mpr ⟨fresh, nodup⟩)

end

end Place

variable {s t : Sched} {p next : Task} {rest : List Task}

lemma cfsEnqueue_spec (fits : s.timeline.IsRedBlack) (fresh : p ∉ s.queue) :
    ∃ timeline, cfsEnqueue p 0 s = some { s with
        vruntime := update s.vruntime p (s.vruntime p + s.minVruntime)
        timeline := timeline } ∧
      timeline.IsRedBlack ∧
      Entered s.vruntime (s.vruntime p + s.minVruntime) s.timeline p timeline := by
  obtain ⟨_, timeline, ran, timelineFits, outcome⟩ := @tsInsert_spec
    (update s.vruntime p (s.vruntime p + s.minVruntime)) p s.timeline fits
  rw [update_self] at outcome
  have entered : Entered _ _ s.timeline p timeline := outcome.imp And.right And.right
  refine ⟨timeline, ?_, timelineFits, entered.congr ?_⟩
  · unfold cfsEnqueue Sched.setVruntime
    simp only [if_true, ran, map_some]
  intro e mem
  have differs : e ≠ p := fun same => fresh (same ▸ mem)
  exact update_of_ne differs _ _

def requeueKey (s : Sched) (next : Task) : BitVec 32 :=
  s.vruntime s.current - s.minVruntime + s.vruntime next

section

variable (sound : Sound s)
include sound

lemma mem_others {e : Task} : e ∈ s.others ↔ e ∈ s.queue ∧ e ≠ s.current := by
  unfold Sched.others
  rw [sound.nodup.mem_erase_iff, and_comm]

lemma current_not_mem_others : s.current ∉ s.others :=
  fun mem => ((mem_others sound).mp mem).2 rfl

lemma nodup_others : s.others.Nodup := sound.nodup.erase _

lemma tsEarse_current : ∃ erased, tsEarse s.timeline s.current = some erased ∧
    erased.IsRedBlack ∧ erased.inorder = s.others := by
  obtain ⟨_, erased, found, ran, fits, order⟩ := erase_spec sound.redBlack sound.nodup sound.current
  refine ⟨erased, ?_, fits, order⟩
  unfold tsEarse
  rw [found, bind_some, ran]

lemma schedule_alone (alone : s.others = []) : schedule s = none := by
  obtain ⟨erased, ran, -, order⟩ := tsEarse_current sound
  have noPick : tsLeftmost erased = none := by
    unfold tsLeftmost
    rw [rbFirst_eq_head, order, alone]
    rfl
  unfold schedule cfsNextTask cfsDequeue Sched.setVruntime
  simp [ran, noPick]

lemma picked_next (picked : s.others = next :: rest) :
    ∃ erased, tsEarse s.timeline s.current = some erased ∧ erased.IsRedBlack ∧
      erased.inorder = s.others ∧ tsLeftmost erased = some next ∧ next ≠ s.current ∧ next ≠ 0 := by
  obtain ⟨erased, ran, fits, order⟩ := tsEarse_current sound
  have pick : tsLeftmost erased = some next := by
    unfold tsLeftmost
    rw [rbFirst_eq_head, order, picked]
    rfl
  have mem : next ∈ s.queue ∧ next ≠ s.current := (mem_others sound).mp (by simp [picked])
  have ne0 : next ≠ 0 := fun null => sound.nonnull (null ▸ mem.1)
  exact ⟨erased, ran, fits, order, pick, mem.2, ne0⟩

lemma schedule_sleeping (picked : s.others = next :: rest)
    (asleep : s.taskState s.current ≠ .running) :
    ∃ timeline, schedule s = some { s with
        vruntime := update s.vruntime s.current
          (s.vruntime s.current - s.minVruntime)
        minVruntime := s.vruntime next
        current := next
        timeline := timeline } ∧
      timeline.IsRedBlack ∧ timeline.inorder = s.others := by
  obtain ⟨erased, ran, fits, order, pick, ne, ne0⟩ := picked_next sound picked
  refine ⟨erased, ?_, fits, order⟩
  unfold schedule cfsNextTask cfsDequeue Sched.setVruntime
  simp [ran, pick, asleep, ne0, update_of_ne ne]

lemma schedule_running (picked : s.others = next :: rest)
    (runs : s.taskState s.current = .running) :
    ∃ erased timeline, schedule s = some { s with
        vruntime := update s.vruntime s.current (requeueKey s next)
        minVruntime := s.vruntime next
        current := next
        timeline := timeline } ∧
      timeline.IsRedBlack ∧ erased.inorder = s.others ∧
      Entered s.vruntime (requeueKey s next) erased s.current timeline := by
  obtain ⟨erased, ran, fits, order, pick, ne, ne0⟩ := picked_next sound picked
  have absent := order ▸ current_not_mem_others sound
  -- The state in which the outgoing task is enqueued again.
  obtain ⟨timeline, requeued, timelineFits, entered⟩ := @cfsEnqueue_spec
    { s with
      vruntime := update s.vruntime s.current (s.vruntime s.current - s.minVruntime)
      minVruntime := s.vruntime next
      timeline := erased } s.current fits absent
  simp only [update_self, update_idem] at requeued entered
  refine ⟨erased, timeline, ?_, timelineFits, order, entered.congr ?_⟩
  · unfold schedule cfsNextTask cfsDequeue Sched.setVruntime
    simp [ran, pick, runs, requeued, ne0, update_of_ne ne, requeueKey]
  intro e inside
  have differs : e ≠ s.current := fun same => absent (same ▸ inside)
  exact update_of_ne differs _ _

lemma schedule_frame (ran : schedule s = some t) :
    Sound t ∧ t.taskState = s.taskState ∧ (∀ e ∈ t.queue, e ∈ s.queue) ∧
      (∀ e ∈ s.others, e ∈ t.queue) ∧
      (s.taskState s.current ≠ .running → s.current ∉ t.queue) := by
  cases picked : s.others with
  | nil =>
    rw [schedule_alone sound picked] at ran
    cases ran
  | cons next rest =>
    have inOthers : next ∈ s.others := by simp [picked]
    have nextMember := (mem_others sound).mp inOthers
    by_cases runs : s.taskState s.current = .running
    · obtain ⟨erased, timeline, result, fits, order, entered⟩ := schedule_running sound picked runs
      rw [result] at ran
      cases ran
      have inside : ∀ e ∈ timeline.inorder, e ∈ s.queue := by
        intro e mem
        rcases entered.mem mem with inErased | isCurrent
        · rw [order] at inErased
          exact ((mem_others sound).mp inErased).1
        · rw [isCurrent]
          exact sound.current
      have kept : ∀ e ∈ s.others, e ∈ timeline.inorder := fun e mem =>
        entered.mem_of_mem (order ▸ mem)
      have absent := order ▸ current_not_mem_others sound
      refine ⟨⟨fits, ?_, fun null => sound.nonnull (inside 0 null), kept next inOthers⟩, rfl,
        inside, fun e mem => kept e (picked ▸ mem), fun asleep => absurd runs asleep⟩
      exact entered.nodup (order ▸ nodup_others sound) absent
    obtain ⟨timeline, result, fits, order⟩ := schedule_sleeping sound picked runs
    rw [result] at ran
    cases ran
    have inside : ∀ e ∈ timeline.inorder, e ∈ s.queue := fun e mem =>
      ((mem_others sound).mp (order ▸ mem)).1
    refine ⟨⟨fits, ?_, fun null => sound.nonnull (inside 0 null), ?_⟩, rfl, inside, ?_, ?_⟩
    · show timeline.inorder.Nodup
      rw [order]
      exact nodup_others sound
    · show next ∈ timeline.inorder
      rw [order]
      exact inOthers
    · intro e mem
      show e ∈ timeline.inorder
      rwa [order, picked]
    · intro _ mem
      exact current_not_mem_others sound (order ▸ mem)

lemma schedule_returns_iff : (∃ t, schedule s = some t) ↔ s.others ≠ [] := by
  constructor
  · rintro ⟨t, ran⟩ alone
    rw [schedule_alone sound alone] at ran
    cases ran
  intro someone
  obtain ⟨_, _, picked⟩ := exists_cons_of_ne_nil someone
  by_cases runs : s.taskState s.current = .running
  · obtain ⟨_, _, result, _⟩ := schedule_running sound picked runs
    exact ⟨_, result⟩
  · obtain ⟨_, result, _⟩ := schedule_sleeping sound picked runs
    exact ⟨_, result⟩

lemma sound_countTick : Sound (countTick s) :=
  ⟨sound.redBlack, sound.nodup, sound.nonnull, sound.current⟩

end

def forkKey (s : Sched) : BitVec 32 := 10 + s.minVruntime

lemma doFork_spec (fits : s.timeline.IsRedBlack) (fresh : p ∉ s.queue) (ne0 : p ≠ 0) :
    ∃ pid timeline, doFork p s = some (pid, { s with
        pidmap := (getPidmap s.pidmap).2
        pid := update s.pid p pid
        taskTicks := update s.taskTicks p (s.taskTicks s.current)
        vruntime := update s.vruntime p (forkKey s)
        taskState := update s.taskState p .running
        timeline := timeline }) ∧
      timeline.IsRedBlack ∧ Entered s.vruntime (forkKey s) s.timeline p timeline := by
  obtain ⟨timeline, queued, timelineFits, entered⟩ := @cfsEnqueue_spec
    { s with
      pidmap := (getPidmap s.pidmap).2
      pid := update s.pid p (getPidmap s.pidmap).1
      taskTicks := update s.taskTicks p (s.taskTicks s.current)
      vruntime := update s.vruntime p 10
      taskState := update s.taskState p .running } p fits fresh
  simp only [update_self, update_idem] at queued entered
  refine ⟨(getPidmap s.pidmap).1, timeline, ?_, timelineFits, entered.congr ?_⟩
  · unfold doFork
    simp only [ne0, if_false, queued, map_some, forkKey]
  intro e mem
  have differs : e ≠ p := fun same => fresh (same ▸ mem)
  exact update_of_ne differs _ _

lemma doFork_frame (sound : Sound s) (fresh : p ∉ s.queue) {pid : BitVec 32}
    (ran : doFork p s = some (pid, t)) :
    Sound t ∧ t.current = s.current ∧ t.taskState = update s.taskState p .running ∧
      t.vruntime = update s.vruntime p (forkKey s) ∧
      Entered s.vruntime (forkKey s) s.timeline p t.timeline := by
  have ne0 : p ≠ 0 := by
    intro null
    unfold doFork at ran
    rw [if_pos null] at ran
    cases ran
  obtain ⟨pid, timeline, result, fits, entered⟩ := doFork_spec sound.redBlack fresh ne0
  rw [result] at ran
  cases ran
  refine ⟨⟨fits, entered.nodup sound.nodup fresh, ?_, entered.mem_of_mem sound.current⟩, rfl, rfl,
    rfl, entered⟩
  intro null
  exact (entered.mem null).elim sound.nonnull fun isChild => ne0 isChild.symm

def Call.enters : Call → Sched → Option Sched
  | .clockHandler kReenter, s =>
      if kReenter ≠ 0 then none
      else if (countTick s).jiffies % nrProcess = 0 then some (countTick s) else none
  | .doFork _, _ => none
  | .schedule, s => some s

variable {call : Call}

lemma run_of_enters (entered : call.enters s = some t) : call.run s = schedule t := by
  cases call with
  | clockHandler kReenter =>
    unfold Call.enters at entered
    dsimp only at entered
    split_ifs at entered with reentered due
    cases entered
    show clockHandler kReenter s = schedule (countTick s)
    unfold clockHandler
    rw [if_neg reentered, if_pos due]
  | doFork p => cases entered
  | schedule =>
    cases entered
    rfl

lemma clockHandler_cases {kReenter : Int} (ran : clockHandler kReenter s = some t) :
    t = countTick s ∨ schedule (countTick s) = some t := by
  unfold clockHandler at ran
  dsimp only at ran
  split_ifs at ran
  · exact .inl (some.inj ran).symm
  · exact .inr ran
  · exact .inl (some.inj ran).symm

lemma run_frame (sound : Sound s) (fresh : ∀ p, call = .doFork p → p ∉ s.queue)
    (ran : call.run s = some t) :
    Sound t ∧ (∀ e, (∀ p, call = .doFork p → e ≠ p) →
      (e ∈ t.queue → e ∈ s.queue) ∧ t.taskState e = s.taskState e) := by
  cases call with
  | clockHandler kReenter =>
    rcases clockHandler_cases ran with rfl | scheduled
    · exact ⟨sound_countTick sound, fun e _ => ⟨id, rfl⟩⟩
    · obtain ⟨soundAfter, states, inside, -⟩ := schedule_frame (sound_countTick sound) scheduled
      exact ⟨soundAfter, fun e _ => ⟨inside e, congrFun states e⟩⟩
  | doFork p =>
    obtain ⟨⟨_, forked⟩, result, rfl⟩ := map_eq_some_iff.mp ran
    obtain ⟨soundAfter, -, states, -, entered⟩ := doFork_frame sound (fresh p rfl) result
    refine ⟨soundAfter, fun e ne => ⟨fun mem => ?_, ?_⟩⟩
    · exact (entered.mem mem).resolve_right (ne p rfl)
    show forked.taskState e = s.taskState e
    rw [states]
    exact update_of_ne (ne p rfl) _ _
  | schedule =>
    obtain ⟨soundAfter, states, inside, -⟩ := schedule_frame sound ran
    exact ⟨soundAfter, fun e _ => ⟨inside e, congrFun states e⟩⟩

end PrettyOS.Kernel
