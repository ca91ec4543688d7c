import EmbedCache.DeviceSelection
import EmbedCache.Lib.Largest

/-! The values that `SortBlock` and `MergeBlock` leave in the lanes.

As far as values go, every round gives one lane of a pair the larger and the other the smaller
value, ties or not. So the lanes hold the eight largest priorities in falling order after every
merge, even where a merge has duplicated a position. -/

namespace EmbedCache

open Lib List

variable {w : Nat} {C : Type*} [LinearOrder C]

def values (v : Lanes C) : Lane → C := fun x => (v x).1

/-- The lane of a pair that gets the larger value in round `(k, j)` of `SortBlock`. -/
def sortUpper (k j : Nat) (x : Lane) : Bool :=
  if x.val &&& k ≠ 0 then decide (lanePair j x < x) else decide (x < lanePair j x)

def comparisons (schedule : List (Nat × Nat)) : List ((Lane → Lane) × (Lane → Bool)) :=
  schedule.map fun round => (lanePair round.2, sortUpper round.1 round.2)

theorem values_sortRound (round : Nat × Nat) (known : round ∈ sortSchedule) (v : Lanes C) :
    values (exchange (lanePair round.2) (sortSwap round.1 round.2 v) v) =
      compareRound (lanePair round.2) (sortUpper round.1 round.2) (values v) := by
  funext x
  have apart := lanePair_ne round.2 (sortSchedule_pairs round known) x
  simp only [values, exchange, sortSwap, compareRound, sortUpper]
  rcases lt_trichotomy (v x).1 (v (lanePair round.2 x)).1 with less | equal | greater
  · rcases lt_or_gt_of_ne apart with below | above
    · by_cases up :
        x.val &&& round.1 ≠ 0 <;> simp [up, below, below.not_gt, less.ne, less.le, less.not_gt]
    · by_cases up :
        x.val &&& round.1 ≠ 0 <;> simp [up, above, above.not_gt, less.ne, less.le, less.not_gt]
  · simp [equal]
  · rcases lt_or_gt_of_ne apart with below | above
    · by_cases up :
        x.val &&& round.1 ≠ 0 <;> simp [up, below, below.not_gt, greater, greater.ne', greater.le]
    · by_cases up :
        x.val &&& round.1 ≠ 0 <;> simp [up, above, above.not_gt, greater, greater.ne', greater.le]

variable (v : Lanes C)

theorem values_sortBlock : values (sortBlock v) =
    network (comparisons sortSchedule) (values v) := by
  have rounds : ∀ (schedule : List (Nat × Nat)) (v : Lanes C),
      (∀ round ∈ schedule, round ∈ sortSchedule) →
      values (schedule.foldl (fun v round =>
        exchange (lanePair round.2) (sortSwap round.1 round.2 v) v) v) =
        network (comparisons schedule) (values v) := by
    intro schedule
    induction schedule with
    | nil => exact fun _ _ => rfl
    | cons round rest ih =>
      intro v known
      have tail := ih (exchange (lanePair round.2) (sortSwap round.1 round.2 v) v)
        fun other member => known other (mem_cons_of_mem _ member)
      rw [values_sortRound round (known round mem_cons_self)] at tail
      exact tail
  exact rounds sortSchedule v fun _ member => member

/-- All pairs of a merge fall, as in the last stage of `SortBlock`. -/
def mergeComparisons : List ((Lane → Lane) × (Lane → Bool)) := comparisons [(8, 4), (8, 2), (8, 1)]

theorem falling_lanes : ∀ x : Lane, ¬ x.val &&& 8 ≠ 0 := by decide

theorem values_mergeRound (j : Nat) (known : j ∈ mergeSchedule) (v : Lanes C) :
    values (exchange (lanePair j) (mergeSwap j v) v) =
      compareRound (lanePair j) (sortUpper 8 j) (values v) := by
  funext x
  have apart := lanePair_ne j known x
  have falls : ¬ x.val &&& 8 ≠ 0 := falling_lanes x
  simp only [values, exchange, mergeSwap, compareRound, sortUpper, if_neg falls]
  rcases lt_or_gt_of_ne apart with below | above
  · rcases lt_or_ge (v (lanePair j x)).1 (v x).1 with less | le
    · simp [below.not_gt, less, less.le]
    · simp [below.not_gt, le, le.not_gt]
  · rcases lt_or_ge (v (lanePair j x)).1 (v x).1 with less | le
    · simp [above, less, less.le]
    · simp [above, le, le.not_gt]

theorem values_mergeRounds : values (mergeRounds mergeSchedule v) =
    network mergeComparisons (values v) := by
  have first := values_mergeRound 4 (by decide) v
  have second := values_mergeRound 2 (by decide) (exchange (lanePair 4) (mergeSwap 4 v) v)
  have third := values_mergeRound 1 (by decide)
    (exchange (lanePair 2) (mergeSwap 2 (exchange (lanePair 4) (mergeSwap 4 v) v))
      (exchange (lanePair 4) (mergeSwap 4 v) v))
  rw [first] at second
  rw [second] at third
  exact third

/-! ### Order -/

abbrev DownUp (u : Lane → Bool) : Prop :=
  ∀ i : Fin 7, if i.val < 3 then u i.succ ≤ u i.castSucc else i.val = 3 ∨ u i.castSucc ≤ u i.succ

theorem halves_downUp : ∀ b₀ b₁ b₂ b₃ b₄ b₅ b₆ b₇ : Bool,
    DownUp (network (comparisons [(2, 1), (4, 2), (4, 1)]) ![b₀, b₁, b₂, b₃, b₄, b₅, b₆, b₇]) := by
  decide +kernel

def firstLanes (n : Nat) : Lane → Bool := fun x => decide (x.val < n)

theorem exists_bits (u : Fin 8 → Bool) :
    ∃ b₀ b₁ b₂ b₃ b₄ b₅ b₆ b₇, u = ![b₀, b₁, b₂, b₃, b₄, b₅, b₆, b₇] := by
  refine ⟨u 0, u 1, u 2, u 3, u 4, u 5, u 6, u 7, ?_⟩
  funext x
  fin_cases x <;> rfl

theorem antitone_of_adjacent {u : Lane → Bool} (adjacent : ∀ i : Fin 7, u i.succ ≤ u i.castSucc) :
    Antitone u :=
  Fin.antitone_iff_succ_le.mpr adjacent

theorem sort_thresholds (u : Lane → Bool) : Antitone (network (comparisons sortSchedule) u) := by
  have halves : DownUp (network (comparisons [(2, 1), (4, 2), (4, 1)]) u) := by
    obtain ⟨b₀, b₁, b₂, b₃, b₄, b₅, b₆, b₇, rfl⟩ := exists_bits u
    exact halves_downUp b₀ b₁ b₂ b₃ b₄ b₅ b₆ b₇
  have whole : network (comparisons sortSchedule) u =
      network mergeComparisons (network (comparisons [(2, 1), (4, 2), (4, 1)]) u) := rfl
  rw [whole]
  generalize network (comparisons [(2, 1), (4, 2), (4, 1)]) u = middle at halves
  obtain ⟨b₀, b₁, b₂, b₃, b₄, b₅, b₆, b₇, rfl⟩ := exists_bits middle
  apply antitone_of_adjacent
  revert b₀ b₁ b₂ b₃ b₄ b₅ b₆ b₇
  decide +kernel

theorem values_sortBlock_antitone : Antitone (values (sortBlock v)) := by
  rw [values_sortBlock]
  exact network_antitone fun c => sort_thresholds _

theorem exists_firstLanes {u : Lane → Bool} (falling : Antitone u) : ∃ n < 9, u = firstLanes n := by
  by_cases all : ∀ x, u x = true
  · refine ⟨numWays, by decide, funext fun x => ?_⟩
    rw [all x, firstLanes, decide_eq_true x.isLt]
  · -- the first lane that is not set
    have some : ∃ n, ∃ bound : n < numWays, u ⟨n, bound⟩ = false := by
      simp only [not_forall, Bool.not_eq_true] at all
      obtain ⟨x, unset⟩ := all
      exact ⟨x.val, x.isLt, unset⟩
    classical
    obtain ⟨bound, unset⟩ := Nat.find_spec some
    refine ⟨Nat.find some, bound.trans (by decide), funext fun x => ?_⟩
    by_cases early : x.val < Nat.find some
    · have set : u x = true := by
        by_contra notSet
        exact Nat.find_min some early ⟨x.isLt, Bool.not_eq_true _ ▸ notSet⟩
      rw [set, firstLanes, decide_eq_true early]
    · have below : u x ≤ u ⟨Nat.find some, bound⟩ := falling (not_lt.mp early)
      rw [unset] at below
      rw [firstLanes, decide_eq_false early]
      exact le_antisymm below (Bool.false_le _)

theorem merge_thresholds {a b : Lane → Bool} (first : Antitone a) (second : Antitone b) :
    Antitone (network mergeComparisons fun x => max (a x) (b (reverseLane x))) := by
  obtain ⟨m, few, rfl⟩ := exists_firstLanes first
  obtain ⟨n, some, rfl⟩ := exists_firstLanes second
  apply antitone_of_adjacent
  clear first second
  revert m n
  decide +kernel

theorem values_mergeStart (first second : Lanes C) :
    values (mergeStart first second) = fun x =>
      max (values first x) (values second (reverseLane x)) := by
  funext x
  simp only [values, mergeStart]
  split
  · rename_i less
    exact (max_eq_right less.le).symm
  · rename_i notLess
    exact (max_eq_left (not_lt.mp notLess)).symm

theorem values_mergeBlock_antitone {first second : Lanes C} (one : Antitone (values first))
    (two : Antitone (values second)) :
    Antitone (values (mergeBlock first second)) := by
  rw [mergeBlock, values_mergeRounds, values_mergeStart]
  apply network_antitone
  intro c
  have above : Monotone fun a : C => decide (c < a) := by
    intro a b le
    by_cases less : c < a
    · simp [less, less.trans_le le]
    · simp [less]
  have split : (fun x => decide (c < max (values first x) (values second (reverseLane x)))) =
      fun x => max (decide (c < values first x)) (decide (c < values second (reverseLane x))) := by
    funext x
    exact above.map_max
  have left : Antitone fun x => decide (c < values first x) := fun x y le => above (one le)
  have right : Antitone fun x => decide (c < values second x) := fun x y le => above (two le)
  have sorted := merge_thresholds left right
  rw [split]
  exact sorted

/-! ### Values -/

theorem sortUpper_opposite : ∀ round ∈ sortSchedule, ∀ x,
    sortUpper round.1 round.2 (lanePair round.2 x) = !sortUpper round.1 round.2 x := by
  decide

theorem comparisons_involutive {schedule : List (Nat × Nat)}
    (known : ∀ round ∈ schedule, round ∈ sortSchedule) :
    ∀ round ∈ comparisons schedule, ∀ x, round.1 (round.1 x) = x := by
  intro round member x
  obtain ⟨pair, listed, rfl⟩ := mem_map.mp member
  exact lanePair_involutive pair.2 (sortSchedule_pairs pair (known pair listed)) x

theorem comparisons_opposite {schedule : List (Nat × Nat)}
    (known : ∀ round ∈ schedule, round ∈ sortSchedule) :
    ∀ round ∈ comparisons schedule, ∀ x, round.2 (round.1 x) = !round.2 x := by
  intro round member x
  obtain ⟨pair, listed, rfl⟩ := mem_map.mp member
  exact sortUpper_opposite pair (known pair listed) x

theorem laneValues_sortBlock : laneValues (values (sortBlock v)) = laneValues (values v) := by
  rw [values_sortBlock]
  exact laneValues_network (comparisons_involutive fun _ member => member)
    (comparisons_opposite fun _ member => member) _

omit [LinearOrder C] in
theorem laneValues_reverseLane (u : Lane → C) :
    laneValues (fun x => u (reverseLane x)) = laneValues u := by
  have back : Function.Involutive reverseLane := by
    intro x
    revert x
    decide
  have permuted : (Finset.univ : Finset Lane).val.map reverseLane = Finset.univ.val :=
    Multiset.map_univ_val_equiv back.toPerm
  rw [laneValues, laneValues]
  conv_rhs => rw [← permuted, Multiset.map_map]
  rfl

theorem reverseLane_antitone : Antitone reverseLane := by
  intro x y le
  revert x y
  decide

theorem largest_mergeBlock {first second : Lanes C} (one : Antitone (values first))
    (two : Antitone (values second)) :
    Largest numWays (laneValues (values first) + laneValues (values second))
      (laneValues (values (mergeBlock first second))) := by
  have known : ∀ round ∈ [(8, 4), (8, 2), (8, 1)], round ∈ sortSchedule := by decide
  have rising : Monotone fun x => values second (reverseLane x) := fun x y le =>
    two (reverseLane_antitone le)
  have best := largest_max one rising
  rw [mergeBlock, values_mergeRounds, values_mergeStart, mergeComparisons,
    laneValues_network (comparisons_involutive known) (comparisons_opposite known),
      ← laneValues_reverseLane (values second)]
  rw [Fintype.card_fin] at best
  exact best

namespace SetWork

variable [Zero C] (work : SetWork w C)

/-! ### Candidates -/

def loaded (i : Nat) : C :=
  match work.locations[i]? with
  | none => 0
  | some loc => if work.isHit loc then 0 else (itemAt work.items loc).priority

def newPriorities : Multiset C :=
  ((work.locations.filter fun loc => !work.isHit loc).map fun loc =>
    (itemAt work.items loc).priority : List C)

omit [LinearOrder C] in
theorem values_loadChunk (processed : Nat) : values (work.loadChunk processed) = fun x =>
    work.loaded (processed + x.val) := by
  funext x
  cases here : work.locations[processed + x.val]? with
  | none => simp only [values, loadChunk, loaded, here]
  | some loc =>
    simp only [values, loadChunk, loaded, here]
    split <;> rfl

omit [LinearOrder C] [Zero C] in
theorem laneValues_range (f : Nat → C) :
    laneValues (fun x : Lane => f x.val) = (Multiset.range numWays).map f := rfl

omit [LinearOrder C] in
theorem sum_chunks (chunks : Nat) :
    ((List.range chunks).map fun chunk =>
      laneValues (values (work.loadChunk (chunk * numWays)))).sum =
      (Multiset.range (chunks * numWays)).map work.loaded := by
  induction chunks with
  | zero => rw [Nat.zero_mul]; rfl
  | succ chunks ih =>
    rw [range_succ, map_append, sum_append, ih, map_singleton, sum_singleton, values_loadChunk,
      laneValues_range fun i => work.loaded (chunks * numWays + i), Nat.succ_mul,
        Multiset.range_add, Multiset.map_add,
      Multiset.map_map]
    rfl

omit [LinearOrder C] in
/-- Besides the priorities of new keys, the lanes load zeros only. -/
theorem exists_zeros {total : Nat} (enough : work.locations.length ≤ total) :
    ∃ zeros : Multiset C, (∀ z ∈ zeros, z = 0) ∧
      (Multiset.range total).map work.loaded = zeros + work.newPriorities := by
  obtain ⟨beyond, rfl⟩ := Nat.exists_eq_add_of_le enough
  have inside : (List.range work.locations.length).map work.loaded =
      work.locations.map fun loc =>
        if work.isHit loc then 0 else (itemAt work.items loc).priority := by
    apply ext_getElem (by simp)
    intro i _ small
    rw [length_map] at small
    simp [loaded, List.getElem?_eq_getElem small]
  have hits : ∀ locations : List Nat, ∃ zeros : Multiset C, (∀ z ∈ zeros, z = 0) ∧
      ((locations.map fun loc => if work.isHit loc then 0
        else (itemAt work.items loc).priority : List C) : Multiset C) =
        zeros + ((locations.filter fun loc => !work.isHit loc).map fun loc =>
          (itemAt work.items loc).priority : List C) := by
    intro locations
    induction locations with
    | nil => exact ⟨0, nofun, rfl⟩
    | cons loc locations ih =>
      obtain ⟨zeros, zero, split⟩ := ih
      rw [map_cons, ← Multiset.cons_coe, split]
      by_cases hit : work.isHit loc = true
      · refine ⟨0 ::ₘ zeros, fun z member => ?_, ?_⟩
        · rcases Multiset.mem_cons.mp member with first | rest
          · exact first
          · exact zero z rest
        · rw [if_pos hit, filter_cons_of_neg (by simp [hit]), Multiset.cons_add]
      · refine ⟨zeros, zero, ?_⟩
        rw [if_neg hit, filter_cons_of_pos (by simp [hit]), map_cons, ← Multiset.cons_coe,
          Multiset.add_cons]
  obtain ⟨zeros, zero, split⟩ := hits work.locations
  refine ⟨zeros + (Multiset.range beyond).map fun i => work.loaded (work.locations.length + i),
    fun z member => ?_, ?_⟩
  · rcases Multiset.mem_add.mp member with first | rest
    · exact zero z first
    · obtain ⟨i, _, rfl⟩ := Multiset.mem_map.mp rest
      simp [loaded]
  · have whole : (Multiset.range work.locations.length).map work.loaded =
        zeros + work.newPriorities := by
      rw [newPriorities, ← split, ← inside]
      rfl
    rw [Multiset.range_add, Multiset.map_add, Multiset.map_map, whole, add_right_comm]
    rfl

theorem bestAfter_antitone (chunks : Nat) : Antitone (values (work.bestAfter chunks)) := by
  induction chunks with
  | zero => exact values_sortBlock_antitone _
  | succ chunks ih => exact values_mergeBlock_antitone ih (values_sortBlock_antitone _)

/-- The lanes hold the eight largest values of the chunks so far. -/
theorem bestAfter_largest (chunks : Nat) :
    Largest numWays ((List.range (chunks + 1)).map fun chunk =>
      laneValues (values (work.loadChunk (chunk * numWays)))).sum
      (laneValues (values (work.bestAfter chunks))) := by
  induction chunks with
  | zero =>
    have whole := Largest.refl (laneValues (values (work.loadChunk 0)))
    rw [bestAfter, laneValues_sortBlock]
    simpa [laneValues] using whole
  | succ chunks ih =>
    have merged := largest_mergeBlock (work.bestAfter_antitone chunks)
      (values_sortBlock_antitone (work.loadChunk ((chunks + 1) * numWays)))
    rw [laneValues_sortBlock] at merged
    have chunk := Largest.refl (laneValues (values (work.loadChunk ((chunks + 1) * numWays))))
    have size : (laneValues (values (work.loadChunk ((chunks + 1) * numWays)))).card = numWays := by
      rw [laneValues, Multiset.card_map]
      rfl
    rw [size] at chunk
    rw [range_succ, map_append, sum_append, map_singleton, sum_singleton]
    exact ih.add chunk merged

end SetWork

end EmbedCache
