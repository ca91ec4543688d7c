import EmbedCache.DeviceKernels

/-! `SortBlock` and `MergeBlock` never hand one candidate to two lanes, except that a
`MergeBlock` round duplicates a candidate when it compares two equal positive priorities. -/

namespace EmbedCache

open Lib

variable {w : Nat} {C : Type*} [LinearOrder C]

theorem lanePair_involutive (j : Nat) (known : j ∈ mergeSchedule) (x : Lane) :
    lanePair j (lanePair j x) = x := by
  revert x j
  decide

theorem lanePair_ne (j : Nat) (known : j ∈ mergeSchedule) (x : Lane) : lanePair j x ≠ x := by
  revert x j
  decide

variable (round : Nat × Nat)

theorem lanePair_direction (known : round ∈ sortSchedule) (x : Lane) :
    (lanePair round.2 x).val &&& round.1 = x.val &&& round.1 := by
  revert x round
  decide

theorem sortSchedule_pairs (known : round ∈ sortSchedule) : round.2 ∈ mergeSchedule := by
  revert round
  decide

theorem reverseLane_injective {x y : Lane} (same : reverseLane x = reverseLane y) : x = y := by
  revert x y
  decide

private theorem decide_lt_swap {α : Type*} [LinearOrder α] {a b : α} (different : a ≠ b) :
    decide (a < b) = !decide (b < a) := by
  rcases lt_or_gt_of_ne different with below | above
  · simp [below, below.le]
  · simp [above, above.le]

theorem sortSwap_agree (known : round ∈ sortSchedule) (v : Lanes C) (x : Lane) :
    sortSwap round.1 round.2 v (lanePair round.2 x) = sortSwap round.1 round.2 v x := by
  have involutive := lanePair_involutive round.2 (sortSchedule_pairs round known) x
  have lanes := decide_lt_swap (lanePair_ne round.2 (sortSchedule_pairs round known) x)
  simp only [sortSwap, involutive, lanePair_direction round known x]
  by_cases equal : (v x).1 = (v (lanePair round.2 x)).1
  · rw [if_pos equal, if_pos equal.symm]
  · have counts := decide_lt_swap equal
    rw [if_neg equal, if_neg (fun same => equal same.symm), counts, lanes]
    cases decide (x < lanePair round.2 x) <;> cases decide
      ((v (lanePair round.2 x)).1 < (v x).1) <;> rfl

/-- Partners of a `MergeBlock` round agree unless their priorities are equal. -/
theorem mergeSwap_agree (j : Nat) (known : j ∈ mergeSchedule) (v : Lanes C) (x : Lane)
    (different : (v x).1 ≠ (v (lanePair j x)).1) :
      mergeSwap j v (lanePair j x) = mergeSwap j v x := by
  have lanes := decide_lt_swap (lanePair_ne j known x)
  have counts := decide_lt_swap different
  simp only [mergeSwap, lanePair_involutive j known x]
  rw [lanes, counts]
  cases decide (x < lanePair j x) <;> cases decide ((v (lanePair j x)).1 < (v x).1) <;> rfl

theorem sortBlock_separated {β : Type*} (P : C × Nat → Prop) (label : C × Nat → β) (v : Lanes C)
    (separated : Separated P label v) : Separated P label (sortBlock v) := by
  have rounds : ∀ (schedule : List (Nat × Nat)) (v : Lanes C),
      (∀ round ∈ schedule, round ∈ sortSchedule) →
      Separated P label v → Separated P label
        (schedule.foldl (fun v round => exchange (lanePair round.2) (sortSwap round.1 round.2 v) v)
          v) := by
    intro schedule
    induction schedule with
    | nil => intro v _ separated; exact separated
    | cons round rest ih =>
      intro v known separated
      have here := known round List.mem_cons_self
      apply ih _ fun other member => known other (List.mem_cons_of_mem _ member)
      exact separated.exchange _ (lanePair_involutive round.2 (sortSchedule_pairs round here)) _
        fun x _ => sortSwap_agree round here v x
  exact rounds sortSchedule v (fun _ member => member) separated

variable (Q : C × Nat → Prop)

theorem sortBlock_forall (v : Lanes C) (all : ∀ x, Q (v x)) : ∀ x, Q (sortBlock v x) := by
  have rounds : ∀ (schedule : List (Nat × Nat)) (v : Lanes C), (∀ x, Q (v x)) → ∀ x,
      Q (schedule.foldl (fun v round => exchange (lanePair round.2) (sortSwap round.1 round.2 v) v)
        v x) := by
    intro schedule
    induction schedule with
    | nil => intro v all; exact all
    | cons round rest ih => intro v all; exact ih _ (exchange_forall _ _ v Q all)
  exact rounds sortSchedule v all

theorem mergeRounds_forall (rounds : List Nat) (v : Lanes C) (all : ∀ x, Q (v x)) :
    ∀ x, Q (mergeRounds rounds v x) := by
  induction rounds generalizing v with
  | nil => exact all
  | cons j rest ih => exact ih _ (exchange_forall _ _ v Q all)

variable [Zero C]

abbrev Positive (a : C × Nat) : Prop := 0 < a.1

/-- Different positive priorities never meet as equals, and the exchanges keep them apart. -/
theorem mergeRounds_separated (rounds : List Nat) (known : ∀ j ∈ rounds, j ∈ mergeSchedule)
    (v : Lanes C) (separated : Separated Positive Prod.fst v) :
    Separated Positive Prod.fst (mergeRounds rounds v) := by
  induction rounds generalizing v with
  | nil => exact separated
  | cons j rest ih =>
    have here := known j List.mem_cons_self
    apply ih fun other member => known other (List.mem_cons_of_mem _ member)
    refine separated.exchange _ (lanePair_involutive j here) _ fun x positive =>
      mergeSwap_agree j here v x fun same => ?_
    have other : Positive (v (lanePair j x)) := by
      rw [Positive, ← same]
      exact positive
    exact lanePair_ne j here x (separated x (lanePair j x) positive other same).symm

/-- A positive lane at the start of a merge comes unchanged from one of the two blocks. -/
theorem mergeStart_origin (first second : Lanes C)
    (kept : ∀ x, Positive (second x) → throughFloat (second x).2 = (second x).2) (x : Lane)
    (positive : Positive (mergeStart first second x)) :
    mergeStart first second x = first x ∨ mergeStart first second x = second (reverseLane x) := by
  by_cases better : (first x).1 < (second (reverseLane x)).1
  · right
    have same : mergeStart first second x =
        ((second (reverseLane x)).1, throughFloat (second (reverseLane x)).2) := if_pos better
    rw [same] at positive ⊢
    rw [kept _ positive]
  · exact .inl (if_neg better)

theorem mergeStart_separated (first second : Lanes C)
    (kept : ∀ x, Positive (second x) → throughFloat (second x).2 = (second x).2)
    (left : Separated Positive Prod.fst first) (right : Separated Positive Prod.fst second)
    (disjoint : ∀ x y, Positive (first x) → Positive (second y) → (first x).1 ≠ (second y).1) :
    Separated Positive Prod.fst (mergeStart first second) := by
  intro x y one two same
  rcases mergeStart_origin first second kept x one with fromFirst | fromSecond <;>
    rcases mergeStart_origin first second kept y two with otherFirst | otherSecond
  · rw [fromFirst] at one same
    rw [otherFirst] at two same
    exact left x y one two same
  · rw [fromFirst] at one same
    rw [otherSecond] at two same
    exact absurd same (disjoint x (reverseLane y) one two)
  · rw [fromSecond] at one same
    rw [otherFirst] at two same
    exact absurd same.symm (disjoint y (reverseLane x) two one)
  · rw [fromSecond] at one same
    rw [otherSecond] at two same
    exact reverseLane_injective (right _ _ one two same)

end EmbedCache
