import Mathlib.Logic.Function.Basic
import Mathlib.Tactic
import EmbedCache.Lib.Runs

/-! A batch over independent parts, worked off by one task for each part.

Every task goes through the whole batch and takes the items of its own part. The
tasks may run in any order: together they do what one pass over the batch does. -/

namespace EmbedCache.Lib

open Function Option List

variable {ι σ : Type*} (home : ι → Nat) (one : ι → σ → Option σ)

def runTask (task : Nat) : List ι → σ → Option σ
  | [], part => some part
  | item :: rest, part =>
    if home item ≠ task then runTask task rest part else (one item part).bind (runTask task rest)

/-- The tasks of `order`, one after another. -/
def executeTasks (batch : List ι) : List Nat → (Nat → σ) → Option (Nat → σ)
  | [], parts => some parts
  | task :: order, parts =>
    (runTask home one task batch (parts task)).bind fun part =>
      executeTasks batch order (Function.update parts task part)

def sweep : List ι → (Nat → σ) → Option (Nat → σ)
  | [], parts => some parts
  | item :: rest, parts =>
    (one item (parts (home item))).bind fun part =>
      sweep rest (Function.update parts (home item) part)

variable {home one} {item : ι}

theorem runTask_skip {task : Nat} (other : home item ≠ task) (rest : List ι) (part : σ) :
    runTask home one task (item :: rest) part = runTask home one task rest part := by
  rw [runTask, if_pos other]

variable {order : List Nat}

theorem executeTasks_skip (outside : home item ∉ order) (rest : List ι) (parts : Nat → σ) :
    executeTasks home one (item :: rest) order parts = executeTasks home one rest order parts := by
  induction order generalizing parts with
  | nil => rfl
  | cons task order ih =>
    rw [mem_cons, not_or] at outside
    rw [executeTasks, executeTasks, runTask_skip outside.1]
    congr 1
    funext part
    exact ih outside.2 _

theorem executeTasks_cons (distinct : order.Nodup) (inside : home item ∈ order) (rest : List ι)
    (parts : Nat → σ) :
    executeTasks home one (item :: rest) order parts =
      (one item (parts (home item))).bind fun part =>
        executeTasks home one rest order (update parts (home item) part) := by
  induction order generalizing parts with
  | nil => simp at inside
  | cons task order ih =>
    obtain ⟨fresh, later⟩ := nodup_cons.mp distinct
    by_cases own : home item = task
    · subst own
      rw [executeTasks, runTask, if_neg (not_not.mpr rfl), bind_assoc]
      congr 1
      funext part
      rw [executeTasks, update_self]
      congr 1
      funext part
      rw [executeTasks_skip fresh, update_idem]
    · have tail : home item ∈ order := (mem_cons.mp inside).resolve_left own
      rw [executeTasks, runTask_skip own]
      -- the task of another part does not see the item's part
      have unseen : ∀ part, update parts (home item) part task = parts task := fun part =>
        update_of_ne (Ne.symm own) _ _
      simp only [executeTasks, unseen, ih later tail, update_of_ne own]
      rw [bind_comm]
      congr 1
      funext part
      congr 1
      funext other
      rw [update_comm own]

/-- Tasks in any order do what one pass over the batch does. -/
theorem executeTasks_eq_sweep {batch : List ι} (distinct : order.Nodup)
    (inside : ∀ item ∈ batch, home item ∈ order)
    (parts : Nat → σ) :
    executeTasks home one batch order parts = sweep home one batch parts := by
  induction batch generalizing parts with
  | nil =>
    induction order generalizing parts with
    | nil => rfl
    | cons task order ih =>
      rw [executeTasks, runTask, bind_some, update_eq_self]
      exact ih (nodup_cons.mp distinct).2 (by simp) parts
  | cons item rest ih =>
    rw [executeTasks_cons distinct (inside item mem_cons_self), sweep]
    congr 1
    funext part
    exact ih (fun other member => inside other (mem_cons_of_mem _ member)) _

/-- A pass in which every item takes one abstract step takes the abstract state along the batch. -/
theorem sweep_simulates {α : Type*} {invariant : (Nat → σ) → Prop} {view : (Nat → σ) → α}
    {spec : α → ι → α → Prop}
    {batch : List ι}
    (step : ∀ item ∈ batch, ∀ parts, invariant parts →
      ∃ part, one item (parts (home item)) = some part ∧ invariant (update parts (home item) part) ∧
        spec (view parts) item (view (update parts (home item) part)))
    {parts : Nat → σ} (start : invariant parts) :
    ∃ parts', sweep home one batch parts = some parts' ∧ invariant parts' ∧
      Run spec (view parts) batch (view parts') := by
  induction batch generalizing parts with
  | nil => exact ⟨parts, rfl, start, .done _⟩
  | cons item rest ih =>
    obtain ⟨part, taken, kept, first⟩ := step item mem_cons_self parts start
    obtain ⟨parts', swept, final, later⟩ :=
      ih (fun other member => step other (mem_cons_of_mem _ member)) kept
    refine ⟨parts', ?_, final, .step first later⟩
    rw [sweep, taken, bind_some]
    exact swept

theorem sweep_total {next : ι → σ → σ} (batch : List ι) (parts : Nat → σ) :
    ∃ swept, sweep home (fun item part => some (next item part)) batch parts = some swept := by
  induction batch generalizing parts with
  | nil => exact ⟨parts, rfl⟩
  | cons item rest ih =>
    rw [sweep, bind_some]
    exact ih _

theorem sweep_preserves (invariant : (Nat → σ) → Prop) {batch : List ι} {parts swept : Nat → σ}
    (step : ∀ item ∈ batch, ∀ parts part, invariant parts →
      one item (parts (home item)) = some part →
      invariant (update parts (home item) part))
    (ran : sweep home one batch parts = some swept) (start : invariant parts) :
      invariant swept := by
  induction batch generalizing parts with
  | nil =>
    rw [← some.inj ran]
    exact start
  | cons item rest ih =>
    rw [sweep] at ran
    obtain ⟨part, done, later⟩ := bind_eq_some_iff.mp ran
    exact ih (fun item member => step item (mem_cons_of_mem _ member)) later
      (step item mem_cons_self parts part start done)

end EmbedCache.Lib
