import PrettyOS.Kernel.SchedOrder

/-!
Contract: virtual time along runs of clock interrupts and calls of `schedule`, without forks.
-/

namespace PrettyOS.Kernel

open Function List BitVec Option

def Span (s : Sched) : Prop :=
  ∀ a ∈ s.queue, ∀ b ∈ s.queue, (s.vruntime a).toNat < (s.vruntime b).toNat + halfRange

instance (s : Sched) : Decidable (Span s) := by
  unfold Span
  infer_instance

structure Steady (s : Sched) : Prop extends Sound s where
  sorted : s.others.Pairwise fun a b => (s.vruntime a).toNat < (s.vruntime b).toNat
  aboveMin : ∀ e ∈ s.queue, s.minVruntime.toNat ≤ (s.vruntime e).toNat

structure ScheduleLaws (s t : Sched) : Prop where
  picksLeast : t.current ∈ s.others ∧
    ∀ e ∈ s.others, (s.vruntime t.current).toNat ≤ (s.vruntime e).toNat
  minGrows : s.minVruntime.toNat ≤ t.minVruntime.toNat
  aboveMin : ∀ e ∈ t.queue, t.minVruntime.toNat ≤ (t.vruntime e).toNat
  sorted : t.others.Pairwise fun a b => (t.vruntime a).toNat < (t.vruntime b).toNat
  keepsLag : s.taskState s.current = .running → s.current ∈ t.queue →
    (t.vruntime s.current).toNat - t.minVruntime.toNat =
      (s.vruntime s.current).toNat - s.minVruntime.toNat

def TickFits (s : Sched) : Prop := (s.vruntime s.current).toNat + 1 < 2 ^ 32

def RequeueFits (s : Sched) : Prop :=
  s.taskState s.current = .running → ∀ next ∈ s.others.head?,
    (s.vruntime s.current - s.minVruntime).toNat + (s.vruntime next).toNat < 2 ^ 32

structure Guarded (call : Call) (s : Sched) : Prop where
  noFork : ∀ p, call ≠ .doFork p
  tickFits : ∀ kReenter, call = .clockHandler kReenter → TickFits s ∧ Span (countTick s)
  scheduleFits : ∀ entry, call.enters s = some entry → 2 ≤ entry.queue.length ∧ RequeueFits entry

inductive GuardedRun (start : Sched) : Sched → Prop
  | refl : GuardedRun start start
  | step {s t : Sched} (call : Call) (run : GuardedRun start s) (guarded : Guarded call s)
      (returned : call.run s = some t) (close : Span t) : GuardedRun start t

variable {s t : Sched}

lemma toInt_sub_of_close {a b : BitVec 32} (upper : a.toNat < b.toNat + halfRange)
    (lower : b.toNat < a.toNat + halfRange) : (a - b).toInt = a.toNat - b.toNat := by
  unfold halfRange at *
  have aSmall := a.isLt
  have bSmall := b.isLt
  rw [toInt_eq_toNat_cond, toNat_sub]
  split_ifs <;> omega

lemma offset_of_le {base key : BitVec 32} (above : base.toNat ≤ key.toNat) :
    offset base key = key.toNat - base.toNat := by
  unfold offset
  have keySmall := key.isLt
  rw [toNat_sub]
  omega

lemma Steady.sorted_signed (steady : Steady s) (close : Span s) : Sorted s := by
  refine steady.sorted.imp_of_mem fun aIn bIn old => ?_
  have aQueued := mem_of_mem_erase aIn
  have bQueued := mem_of_mem_erase bIn
  rw [toInt_sub_of_close (close _ aQueued _ bQueued) (close _ bQueued _ aQueued)]
  omega

lemma toNat_requeueKey {next : Task} (aboveMin : s.minVruntime.toNat ≤ (s.vruntime s.current).toNat)
    (fits : (s.vruntime s.current - s.minVruntime).toNat + (s.vruntime next).toNat < 2 ^ 32) :
    (requeueKey s next).toNat =
      (s.vruntime s.current).toNat - s.minVruntime.toNat + (s.vruntime next).toNat := by
  have lag : (s.vruntime s.current - s.minVruntime).toNat =
      (s.vruntime s.current).toNat - s.minVruntime.toNat := offset_of_le aboveMin
  unfold requeueKey
  rw [toNat_add, Nat.mod_eq_of_lt fits, lag]

lemma others_ne_nil (sound : Sound s) (two : 2 ≤ s.queue.length) : s.others ≠ [] := by
  intro alone
  have length := length_erase_of_mem sound.current
  unfold Sched.others at alone
  rw [alone] at length
  simp only [length_nil] at length
  omega

lemma schedule_keys (steady : Steady s) {next : Task} {rest : List Task}
    (picked : s.others = next :: rest) (fits : RequeueFits s) (ran : schedule s = some t) :
    t.current = next ∧ t.minVruntime = s.vruntime next ∧
      (∀ e ∈ s.others, t.vruntime e = s.vruntime e) ∧
      (∀ e ∈ t.queue, e ∈ s.others ∨ e = s.current) ∧
      (s.current ∈ t.queue → (t.vruntime s.current).toNat =
        (s.vruntime s.current).toNat - s.minVruntime.toNat + (s.vruntime next).toNat) := by
  have sound := steady.toSound
  have absent := current_not_mem_others sound
  by_cases runs : s.taskState s.current = .running
  · obtain ⟨_, timeline, res, -, order, ent⟩ := schedule_running sound picked runs
    rw [res] at ran
    cases ran
    refine ⟨rfl, rfl, ?_, ?_, ?_⟩
    · exact fun e mem => update_of_ne (ne_of_mem_of_not_mem mem absent) _ _
    · exact fun e mem => order ▸ ent.mem mem
    intro _
    show (update s.vruntime s.current (requeueKey s next) s.current).toNat = _
    rw [update_self]
    exact toNat_requeueKey (steady.aboveMin _ sound.current) (fits runs next (by simp [picked]))
  · obtain ⟨timeline, res, -, order⟩ := schedule_sleeping sound picked runs
    rw [res] at ran
    cases ran
    refine ⟨rfl, rfl, ?_, ?_, ?_⟩
    · exact fun e mem => update_of_ne (ne_of_mem_of_not_mem mem absent) _ _
    · exact fun e mem => Or.inl (order ▸ mem)
    · exact fun mem => absurd (show s.current ∈ s.others from order ▸ mem) absent

lemma scheduleLaws (steady : Steady s) (close : Span s) (fits : RequeueFits s)
    (ran : schedule s = some t) (closeAfter : Span t) : ScheduleLaws s t ∧ Steady t := by
  have sound := steady.toSound
  cases picked : s.others with
  | nil =>
    rw [schedule_alone sound picked] at ran
    cases ran
  | cons next rest =>
    obtain ⟨isNext, newMin, keptKeys, members, requeued⟩ := schedule_keys steady picked fits ran
    obtain ⟨soundAfter, -⟩ := schedule_frame sound ran
    have nextIn : next ∈ s.others := by simp [picked]
    have least : ∀ e ∈ s.others, (s.vruntime next).toNat ≤ (s.vruntime e).toNat := by
      intro e mem
      have sorted := steady.sorted
      rw [picked, pairwise_cons] at sorted
      rcases mem_cons.mp (picked ▸ mem) with rfl | later
      · exact le_rfl
      · exact (sorted.1 e later).le
    have aboveMin : ∀ e ∈ t.queue, t.minVruntime.toNat ≤ (t.vruntime e).toNat := by
      intro e mem
      rw [newMin]
      rcases members e mem with isOther | rfl
      · rw [keptKeys e isOther]
        exact least e isOther
      · rw [requeued mem]
        omega
    -- The new `min_vruntime` is a queued key, so that it bounds a window from below.
    have nextQueued := isNext ▸ soundAfter.current
    have inside : InWindow t.minVruntime t := by
      intro e mem
      have nearNext := closeAfter e mem next nextQueued
      have above := aboveMin e mem
      rw [offset_of_le above]
      rw [keptKeys next nextIn, ← newMin] at nearNext
      omega
    have sortedQueue := sorted_schedule sound (steady.sorted_signed close) ran inside
    have sorted : t.others.Pairwise fun a b => (t.vruntime a).toNat < (t.vruntime b).toNat := by
      refine (sortedQueue.sublist erase_sublist).imp_of_mem fun aIn bIn old => ?_
      have aQueued := mem_of_mem_erase aIn
      have bQueued := mem_of_mem_erase bIn
      rw [toInt_sub_of_close (closeAfter _ aQueued _ bQueued) (closeAfter _ bQueued _ aQueued)]
        at old
      omega
    refine ⟨⟨⟨isNext ▸ nextIn, isNext ▸ least⟩, ?_, aboveMin, sorted, ?_⟩,
      ⟨soundAfter, sorted, aboveMin⟩⟩
    · rw [newMin]
      exact steady.aboveMin next ((mem_others sound).mp nextIn).1
    intro _ mem
    rw [requeued mem, newMin]
    omega

lemma steady_countTick (steady : Steady s) (fits : TickFits s) : Steady (countTick s) := by
  have sound := steady.toSound
  refine ⟨sound_countTick sound, ?_, ?_⟩
  · refine steady.sorted.imp_of_mem fun aIn bIn old => ?_
    show (update s.vruntime s.current _ _).toNat < (update s.vruntime s.current _ _).toNat
    rwa [update_of_ne ((mem_others sound).mp aIn).2, update_of_ne ((mem_others sound).mp bIn).2]
  intro e mem
  have above := steady.aboveMin e mem
  show s.minVruntime.toNat ≤ (update s.vruntime s.current _ e).toNat
  by_cases isCurrent : e = s.current
  · subst isCurrent
    unfold TickFits at fits
    rw [update_self, toNat_add, show (1 : BitVec 32).toNat = 1 from rfl]
    omega
  · rwa [update_of_ne isCurrent]

lemma guarded_step (steady : Steady s) (close : Span s) {call : Call} (guarded : Guarded call s) :
    ∃ t, call.run s = some t ∧ (Span t → Steady t ∧ s.minVruntime.toNat ≤ t.minVruntime.toNat ∧
      ∀ entry, call.enters s = some entry → ScheduleLaws entry t) := by
  have scheduled : ∀ entry, call.enters s = some entry → Steady entry → Span entry →
      s.minVruntime = entry.minVruntime →
      ∃ t, call.run s = some t ∧ (Span t → Steady t ∧ s.minVruntime.toNat ≤ t.minVruntime.toNat ∧
        ∀ entry, call.enters s = some entry → ScheduleLaws entry t) := by
    intro entry ent entrySteady entryClose sameMin
    obtain ⟨two, fits⟩ := guarded.scheduleFits entry ent
    obtain ⟨t, ran⟩ := (schedule_returns_iff entrySteady.toSound).mpr
      (others_ne_nil entrySteady.toSound two)
    refine ⟨t, (run_of_enters ent).trans ran, fun closeAfter => ?_⟩
    obtain ⟨laws, steadyAfter⟩ := scheduleLaws entrySteady entryClose fits ran closeAfter
    refine ⟨steadyAfter, sameMin ▸ laws.minGrows, fun other enteredToo => ?_⟩
    rw [ent] at enteredToo
    cases enteredToo
    exact laws
  cases ent : call.enters s with
  | some entry =>
    rw [← ent]
    cases call with
    | clockHandler kReenter =>
      obtain ⟨tickFits, closeTick⟩ := guarded.tickFits kReenter rfl
      have same : entry = countTick s := by
        unfold Call.enters at ent
        dsimp only at ent
        split_ifs at ent
        exact (some.inj ent).symm
      subst same
      exact scheduled _ ent (steady_countTick steady tickFits) closeTick rfl
    | doFork p => exact absurd rfl (guarded.noFork p)
    | schedule =>
      cases ent
      exact scheduled _ rfl steady close rfl
  | none =>
    cases call with
    | clockHandler kReenter =>
      obtain ⟨tickFits, closeTick⟩ := guarded.tickFits kReenter rfl
      refine ⟨countTick s, ?_, fun _ => ⟨steady_countTick steady tickFits, le_rfl, nofun⟩⟩
      unfold Call.enters at ent
      dsimp only at ent
      show clockHandler kReenter s = _
      unfold clockHandler
      split_ifs at ent with reentered due
      · rw [if_pos reentered]
      · rw [if_neg reentered, if_neg due]
    | doFork p => exact absurd rfl (guarded.noFork p)
    | schedule => cases ent

lemma GuardedRun.steady {start : Sched} (run : GuardedRun start s) (steady : Steady start)
    (close : Span start) : Steady s ∧ Span s := by
  induction run with
  | refl => exact ⟨steady, close⟩
  | step call run guarded ran closeAfter ih =>
    obtain ⟨t, returns, facts⟩ := guarded_step ih.1 ih.2 guarded
    rw [ran] at returns
    cases returns
    exact ⟨(facts closeAfter).1, closeAfter⟩

/-- From a steady state with close keys, in every run of guarded calls, every further guarded
call returns; the state it leaves is steady and `min_vruntime` has not decreased when the
keys are still close, and a `schedule` in the call obeys its laws. -/
theorem virtualTime_laws {start : Sched} (steady : Steady start) (close : Span start)
    (run : GuardedRun start s) {call : Call} (guarded : Guarded call s) :
    Steady s ∧ ∃ t, call.run s = some t ∧
      (Span t → Steady t ∧ s.minVruntime.toNat ≤ t.minVruntime.toNat ∧
        ∀ entry, call.enters s = some entry → ScheduleLaws entry t) :=
  ⟨(run.steady steady close).1,
    guarded_step (run.steady steady close).1 (run.steady steady close).2 guarded⟩

lemma steady_bootState : Steady bootState := by
  have booted := booted_of_start start_bootState
  exact ⟨booted.sound, by decide +kernel, by decide +kernel⟩

/-- A tick after start-up and then a `schedule`: it picks `tty` and requeues `TestA` one
behind it. -/
theorem virtualTime_laws_firstPick : ∃ t, schedule (countTick bootState) = some t ∧
    ScheduleLaws (countTick bootState) t ∧ t.current = firstBoot.tty ∧
    t.others = [firstBoot.testA] := by
  have tick : Guarded (.clockHandler 1) bootState :=
    ⟨nofun, fun _ _ => ⟨by unfold TickFits; decide +kernel, by decide +kernel⟩, nofun⟩
  have pick : Guarded .schedule (countTick bootState) := by
    refine ⟨nofun, nofun, fun entry entered => ?_⟩
    cases entered
    refine ⟨by decide +kernel, fun _ => ?_⟩
    decide +kernel
  have run : GuardedRun bootState (countTick bootState) :=
    .step (.clockHandler 1) .refl tick rfl (by decide +kernel)
  obtain ⟨-, t, returned, facts⟩ := virtualTime_laws steady_bootState (by decide +kernel) run pick
  have result : schedule (countTick bootState) =
      some ((schedule (countTick bootState)).get (by decide +kernel)) := (some_get _).symm
  have same := some.inj (returned.symm.trans result)
  subst same
  exact ⟨_, result, (facts (by decide +kernel)).2.2 _ rfl, by decide +kernel, by decide +kernel⟩

end PrettyOS.Kernel
