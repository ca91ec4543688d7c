import Mathlib.Tactic

/-! Runs of a labelled step relation. -/

namespace EmbedCache.Lib

variable {σ α : Type*}

/-- The step relation takes the first state to the last along the labels. -/
inductive Run (step : σ → α → σ → Prop) : σ → List α → σ → Prop
  | done (state : σ) : Run step state [] state
  | step {first second last : σ} {label : α} {rest : List α} (taken : step first label second)
      (later : Run step second rest last) : Run step first (label :: rest) last

variable {first last : σ} {step : σ → α → σ → Prop} {labels : List α}

/-- What every step preserves holds after every run. -/
theorem Run.invariant (invariant : σ → Prop)
    (preserved : ∀ first label second, step first label second → invariant first → invariant second)
    (run : Run step first labels last) (start : invariant first) :
    invariant last := by
  induction run with
  | done state => exact start
  | step taken later ih => exact ih (preserved _ _ _ taken start)

theorem Run.invariant_of_mem (invariant : σ → Prop)
    (run : Run step first labels last)
    (preserved : ∀ label ∈ labels, ∀ first second, step first label second → invariant first →
      invariant second)
    (start : invariant first) : invariant last := by
  induction run with
  | done state => exact start
  | step taken later ih =>
    exact ih (fun label member => preserved label (List.mem_cons_of_mem _ member))
      (preserved _ List.mem_cons_self _ _ taken start)

theorem Run.invariant_history (invariant : List α → σ → Prop)
    (preserved : ∀ past first label second, step first label second → invariant past first →
      invariant (past ++ [label]) second)
    (run : Run step first labels last) (past : List α) (start : invariant past first) :
      invariant (past ++ labels) last := by
  induction run generalizing past with
  | done state => rwa [List.append_nil]
  | step taken later ih =>
    rw [List.append_cons]
    exact ih _ (preserved _ _ _ _ taken start)

theorem Run.append {first middle last : σ} {labels more : List α}
    (run : Run step first labels middle) (later : Run step middle more last) :
    Run step first (labels ++ more) last := by
  induction run with
  | done state => exact later
  | step taken _ ih => exact .step taken (ih later)

theorem Run.mono {step weaker : σ → α → σ → Prop}
    (weakens : ∀ first label second, step first label second → weaker first label second)
    (run : Run step first labels last) : Run weaker first labels last := by
  induction run with
  | done state => exact .done state
  | step taken _ ih => exact .step (weakens _ _ _ taken) ih

theorem Run.eq_foldl {f : σ → α → σ}
    (run : Run (fun first label last => last = f first label) first labels last) :
      last = labels.foldl f first := by
  induction run with
  | done state => rfl
  | step taken _ ih => rw [ih, taken, List.foldl_cons]

theorem Run.of_foldl (f : σ → α → σ) (first : σ) (labels : List α) :
    Run (fun first label last => last = f first label) first labels (labels.foldl f first) := by
  induction labels generalizing first with
  | nil => exact .done first
  | cons label rest ih => exact .step rfl (ih (f first label))

variable (measure : σ → Nat) (smaller : ∀ first label second, step first label second →
    measure second < measure first)

include measure smaller in
theorem Run.length_le
    (run : Run step first labels last) : labels.length + measure last ≤ measure first := by
  induction run with
  | done state => exact (Nat.zero_add _).le
  | step taken _ ih =>
    have less := smaller _ _ _ taken
    rw [List.length_cons]
    omega

include measure smaller in
theorem Run.exists_stopped (first : σ) :
    ∃ labels last, Run step first labels last ∧ ∀ label next, ¬ step last label next := by
  induction size : measure first using Nat.strong_induction_on generalizing first with
  | _ size ih =>
    by_cases stopped : ∀ label next, ¬ step first label next
    · exact ⟨[], first, .done first, stopped⟩
    · push Not at stopped
      obtain ⟨label, next, taken⟩ := stopped
      obtain ⟨labels, last, run, stuck⟩ := ih _ (size ▸ smaller _ _ _ taken) next rfl
      exact ⟨label :: labels, last, .step taken run, stuck⟩

end EmbedCache.Lib
