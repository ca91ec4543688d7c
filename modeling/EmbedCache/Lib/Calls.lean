import Mathlib.Data.List.TakeWhile
import Mathlib.Tactic

/-! Sequences of fallible calls that stop at the first failure.

Each step names the call it makes. A call may be refused before it is issued;
otherwise its result comes from the environment. A failing step has no effect,
and the steps after it are not reached. -/

namespace EmbedCache.Lib

open List

variable {κ ε σ : Type*}

structure GuardedStep (κ ε σ : Type*) where
  call : κ
  refusal : Option ε
  effect : σ → σ

def GuardedStep.result (outcome : κ → ε) (step : GuardedStep κ ε σ) : ε :=
  step.refusal.getD (outcome step.call)

def applySteps (steps : List (GuardedStep κ ε σ)) (state : σ) : σ :=
  steps.foldl (fun state step => step.effect state) state

@[simp] theorem applySteps_nil (state : σ) :
    applySteps ([] : List (GuardedStep κ ε σ)) state = state := rfl

@[simp] theorem applySteps_cons (step : GuardedStep κ ε σ) (rest : List (GuardedStep κ ε σ))
    (state : σ) :
    applySteps (step :: rest) state = applySteps rest (step.effect state) := rfl

variable [DecidableEq ε]

def runSteps (ok : ε) (outcome : κ → ε) : List (GuardedStep κ ε σ) → σ → ε × σ
  | [], state => (ok, state)
  | step :: rest, state =>
    if step.result outcome = ok then runSteps ok outcome rest (step.effect state)
    else (step.result outcome, state)

def performed (ok : ε) (outcome : κ → ε) (steps : List (GuardedStep κ ε σ)) :
    List (GuardedStep κ ε σ) :=
  steps.takeWhile fun step => step.result outcome = ok

section

variable (ok : ε) (outcome : κ → ε) (steps : List (GuardedStep κ ε σ))

include ok outcome steps

theorem runSteps_state (state : σ) :
    (runSteps ok outcome steps state).2 = applySteps (performed ok outcome steps) state := by
  induction steps generalizing state with
  | nil => rfl
  | cons step rest ih =>
    by_cases success : step.result outcome = ok
    · simp only [runSteps, performed, takeWhile_cons, success, if_true, decide_true,
        applySteps_cons]
      exact ih (step.effect state)
    · simp only [runSteps, performed, takeWhile_cons, success, if_false, decide_false,
        Bool.false_eq_true, applySteps_nil]

theorem runSteps_ok_iff (state : σ) :
    (runSteps ok outcome steps state).1 = ok ↔ ∀ step ∈ steps, step.result outcome = ok := by
  induction steps generalizing state with
  | nil => simp [runSteps]
  | cons step rest ih =>
    by_cases success : step.result outcome = ok
    · simp only [runSteps, success, if_true, ih, forall_mem_cons, true_and]
    · simp only [runSteps, success, if_false, forall_mem_cons, false_and]

theorem performed_of_ok
    (success : ∀ step ∈ steps, step.result outcome = ok) : performed ok outcome steps = steps := by
  rw [performed, takeWhile_eq_self_iff]
  intro step member
  simpa using success step member

theorem runSteps_of_ok (state : σ)
    (success : (runSteps ok outcome steps state).1 = ok) :
    (runSteps ok outcome steps state).2 = applySteps steps state := by
  rw [runSteps_state, performed_of_ok ok outcome steps
    ((runSteps_ok_iff ok outcome steps state).mp success)]

theorem applySteps_of_ok {state after : σ}
    (result : runSteps ok outcome steps state = (ok, after)) :
    after = applySteps steps state := by
  rw [← runSteps_of_ok ok outcome steps state (congrArg Prod.fst result), result]

end

/-- What every step keeps, the run keeps, however far it gets. -/
theorem runSteps_keeps (ok : ε) (outcome : κ → ε) (kept : σ → Prop)
    (steps : List (GuardedStep κ ε σ))
    (each : ∀ step ∈ steps, ∀ state, kept state → kept (step.effect state)) (state : σ)
    (start : kept state) : kept (runSteps ok outcome steps state).2 := by
  induction steps generalizing state with
  | nil => exact start
  | cons step rest ih =>
    simp only [runSteps]
    split
    · exact ih (fun other member => each other (mem_cons_of_mem _ member)) _
        (each step mem_cons_self _ start)
    · exact start

end EmbedCache.Lib
