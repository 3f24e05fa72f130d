import Mathlib.Tactic.Common

/-!
Contract: runs of calls that return or do not return.

A call takes a state to its result and the next state; `none` is a call that does not return.
-/

namespace PrettyOS.Library

open Option

variable {κ σ ρ : Type*} (step : κ → σ → Option (ρ × σ))

def runSteps : List κ → σ → Option (List ρ × σ)
  | [], s => some ([], s)
  | call :: rest, s =>
      (step call s).bind fun done =>
        (runSteps rest done.2).map fun others => (done.1 :: others.1, others.2)

def AtEach (condition : κ → σ → Prop) : List κ → σ → Prop
  | [], _ => True
  | call :: rest, s =>
      condition call s ∧ ∀ result t, step call s = some (result, t) → AtEach condition rest t

def AfterEach (property : κ → σ → ρ → σ → Prop) : List κ → σ → Prop
  | [], _ => True
  | call :: rest, s =>
      ∀ result t, step call s = some (result, t) →
        property call s result t ∧ AfterEach property rest t

def ReturnsEach (property : κ → σ → ρ → σ → Prop) : List κ → σ → Prop
  | [], _ => True
  | call :: rest, s =>
      ∃ result t, step call s = some (result, t) ∧ property call s result t ∧
        ReturnsEach property rest t

def passes (good : σ → Bool) : List κ → σ → Bool
  | [], s => good s
  | call :: rest, s => good s && (step call s).any fun done => passes good rest done.2

variable {step} {condition : κ → σ → Prop} {property : κ → σ → ρ → σ → Prop} {good : σ → Prop}
  {calls : List κ} {call : κ} {s last : σ} {results : List ρ} {result : ρ}

lemma runSteps_cons (ran : runSteps step (call :: calls) s = some (results, last)) :
    ∃ result t others, step call s = some (result, t) ∧
      runSteps step calls t = some (others, last) ∧ results = result :: others := by
  obtain ⟨⟨result, t⟩, isStep, ran⟩ := bind_eq_some_iff.mp ran
  obtain ⟨⟨others, _⟩, isRest, same⟩ := map_eq_some_iff.mp ran
  cases same
  exact ⟨result, t, others, isStep, isRest, rfl⟩

lemma runSteps_extend {t : σ} (isStep : step call s = some (result, t))
    (isRest : runSteps step calls t = some (results, last)) :
    runSteps step (call :: calls) s = some (result :: results, last) := by
  rw [runSteps, isStep, bind_some, isRest]
  rfl

lemma atEach_extend {t : σ} (isStep : step call s = some (result, t)) (now : condition call s)
    (others : AtEach step condition calls t) : AtEach step condition (call :: calls) s := by
  refine ⟨now, fun result' t' isStep' => ?_⟩
  cases isStep.symm.trans isStep'
  exact others

lemma runSteps_take_of_passes {isGood : σ → Bool} (good : passes step isGood calls s = true)
    (n : Nat) : ∃ done, runSteps step (calls.take n) s = some done ∧ isGood done.2 = true := by
  induction calls generalizing s n with
  | nil =>
    rw [List.take_nil]
    exact ⟨_, rfl, good⟩
  | cons call rest ih =>
    obtain ⟨now, later⟩ := (Bool.and_eq_true _ _).mp good
    cases n with
    | zero => exact ⟨_, rfl, now⟩
    | succ n =>
      obtain ⟨first, isStep, restGood⟩ := (any_eq_true _ _).mp later
      obtain ⟨others, isRest, lastGood⟩ := ih restGood n
      exact ⟨(first.1 :: others.1, others.2), runSteps_extend isStep isRest, lastGood⟩

lemma afterEach_of_good {admits : κ → Prop}
    (kept : ∀ {call s result t}, good s → admits call → step call s = some (result, t) →
      property call s result t ∧ good t)
    (start : good s) (adm : ∀ call ∈ calls, admits call) :
    AfterEach step property calls s := by
  induction calls generalizing s with
  | nil => trivial
  | cons call rest ih =>
    rw [List.forall_mem_cons] at adm
    intro result t isStep
    have after := kept start adm.1 isStep
    exact ⟨after.1, ih after.2 adm.2⟩

lemma returnsEach_of_good {admits : κ → σ → Prop}
    (each : ∀ call s, good s → admits call s →
      ∃ result t, step call s = some (result, t) ∧ property call s result t ∧ good t)
    (start : good s) (adm : AtEach step admits calls s) :
    ReturnsEach step property calls s := by
  induction calls generalizing s with
  | nil => trivial
  | cons call rest ih =>
    obtain ⟨result, t, isStep, has, next⟩ := each call s start adm.1
    exact ⟨result, t, isStep, has, ih next (adm.2 result t isStep)⟩

theorem afterEach_iff_atEach_of_admitted {admits : κ → σ → Prop}
    (each : ∀ {call s result t}, good s → admits call s → step call s = some (result, t) →
      (property call s result t ↔ condition call s))
    (kept : ∀ {call s result t}, good s → admits call s → step call s = some (result, t) →
      condition call s → good t)
    (start : good s) (adm : AtEach step admits calls s)
    (ran : runSteps step calls s = some (results, last)) :
    AfterEach step property calls s ↔ AtEach step condition calls s := by
  induction calls generalizing s results with
  | nil => exact Iff.rfl
  | cons call rest ih =>
    obtain ⟨result, t, _, isStep, isRest, -⟩ := runSteps_cons ran
    have later := adm.2 result t isStep
    constructor
    · intro holds
      have now := (each start adm.1 isStep).mp (holds result t isStep).1
      refine ⟨now, fun result' t' isStep' => ?_⟩
      cases isStep.symm.trans isStep'
      exact (ih (kept start adm.1 isStep now) later isRest).mp (holds result t isStep).2
    · intro holds result' t' isStep'
      cases isStep.symm.trans isStep'
      exact ⟨(each start adm.1 isStep).mpr holds.1,
        (ih (kept start adm.1 isStep holds.1) later isRest).mpr (holds.2 result t isStep)⟩

lemma returnsEach_iff_atEach_of_admitted {admits : κ → σ → Prop}
    (each : ∀ {call s}, good s → admits call s →
      ((∃ result t, step call s = some (result, t) ∧ property call s result t) ↔ condition call s))
    (kept : ∀ {call s result t}, good s → admits call s → step call s = some (result, t) →
      condition call s → good t)
    (start : good s) (adm : AtEach step admits calls s) :
    ReturnsEach step property calls s ↔ AtEach step condition calls s := by
  induction calls generalizing s with
  | nil => exact Iff.rfl
  | cons call rest ih =>
    constructor
    · rintro ⟨result, t, isStep, has, others⟩
      have now := (each start adm.1).mp ⟨result, t, isStep, has⟩
      refine ⟨now, fun result' t' isStep' => ?_⟩
      cases isStep.symm.trans isStep'
      exact (ih (kept start adm.1 isStep now)
        (adm.2 result t isStep)).mp others
    · rintro ⟨now, others⟩
      obtain ⟨result, t, isStep, has⟩ := (each start adm.1).mpr now
      exact ⟨result, t, isStep, has, (ih (kept start adm.1 isStep now)
          (adm.2 result t isStep)).mpr (others result t isStep)⟩

theorem atEach_true (calls : List κ) (s : σ) : AtEach step (fun _ _ => True) calls s := by
  induction calls generalizing s with
  | nil => trivial
  | cons call rest ih => exact ⟨trivial, fun _ t _ => ih t⟩

theorem afterEach_iff_atEach
    (each : ∀ {call s result t}, good s → step call s = some (result, t) →
      (property call s result t ↔ condition call s))
    (kept : ∀ {call s result t}, good s → step call s = some (result, t) → condition call s →
      good t)
    (start : good s) (ran : runSteps step calls s = some (results, last)) :
    AfterEach step property calls s ↔ AtEach step condition calls s :=
  afterEach_iff_atEach_of_admitted (fun isGood _ => each isGood)
    (fun isGood _ isStep holds => kept isGood isStep holds) start (atEach_true calls s) ran

lemma returnsEach_iff_atEach
    (each : ∀ {call s}, good s →
      ((∃ result t, step call s = some (result, t) ∧ property call s result t) ↔ condition call s))
    (kept : ∀ {call s result t}, good s → step call s = some (result, t) → condition call s →
      good t)
    (start : good s) :
    ReturnsEach step property calls s ↔ AtEach step condition calls s :=
  returnsEach_iff_atEach_of_admitted (fun isGood _ => each isGood)
    (fun isGood _ isStep holds => kept isGood isStep holds) start (atEach_true calls s)

lemma atEach_call_iff {admits : κ → Prop} (ran : runSteps step calls s = some (results, last)) :
    AtEach step (fun call _ => admits call) calls s ↔ ∀ call ∈ calls, admits call := by
  induction calls generalizing s results with
  | nil => exact iff_of_true trivial nofun
  | cons call rest ih =>
    obtain ⟨result, t, _, isStep, isRest, -⟩ := runSteps_cons ran
    rw [List.forall_mem_cons, ← ih isRest]
    refine and_congr_right fun _ => ⟨fun holds => holds result t isStep, ?_⟩
    intro holds result' t' isStep'
    cases isStep.symm.trans isStep'
    exact holds

end PrettyOS.Library
