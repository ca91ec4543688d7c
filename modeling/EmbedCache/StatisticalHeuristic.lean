import EmbedCache.Lib.Runs
import Mathlib.Analysis.Real.Sqrt
import Mathlib.Data.List.DropRight
import Mathlib.Data.Rat.Floor

/-! `StatisticalInsertHeuristic`: when the hit rates of a table call for an insert.

The arithmetic is exact (any ordered field in place of `float`, counters without a largest value);
the random draw of a call is an argument of it. -/

namespace EmbedCache.StatisticalInsertHeuristic

open Lib List Function

inductive State
  | start | insert | steady | unstable
deriving DecidableEq

/-- The arguments of the constructor, with what it checks. -/
structure Params (F : Type*) [Field F] [LinearOrder F] where
  numKeys : Nat
  kFactor : List F
  windowSize : Nat
  numInsertsNeeded : Nat
  maxUnsteadySamples : Nat
  kFactor_some : kFactor ≠ []
  windowSize_gt : 1 < windowSize
  numInsertsNeeded_pos : 0 < numInsertsNeeded
  maxUnsteadySamples_pos : 0 < maxUnsteadySamples
  kFactor_pos : ∀ k ∈ kFactor, 0 < k

/-- What the heuristic keeps for one table. -/
structure Table (F : Type*) where
  hitrateWindow : List F
  hitrateMean : F
  hitrateVar : F
  state : State
  windowSamplesCollected : Nat
  insertionsPerformed : Nat
  consecutiveUnsteadySamples : Nat
deriving DecidableEq

structure Call (F : Type*) where
  hitrate : F
  tableId : Nat
  draw : F

section Log

variable {F : Type*} (tableId : Nat) (log : List (Call F × Bool))

def own : List (Call F × Bool) :=
  log.filter fun entry => entry.1.tableId = tableId

def reported : List F := (own tableId log).map fun entry => entry.1.hitrate

def answers : List Bool := (own tableId log).map Prod.snd

theorem own_append (entry : Call F × Bool) :
    own tableId (log ++ [entry]) = own tableId log ++ if entry.1.tableId = tableId then [entry]
      else [] := by
  rw [own, filter_append, filter_singleton, own]
  simp only [Bool.cond_decide]

end Log

/-- Each `false` comes after no `true` or after `size` of them; `length` have come since the last
`false`. -/
inductive Blocks (size : Nat) : List Bool → Nat → Prop
  | nil : Blocks size [] 0
  | quiet {answers : List Bool} {length : Nat} (before : Blocks size answers length)
    (whole : length = 0 ∨ length = size) :
      Blocks size (answers ++ [false]) 0
  | more {answers : List Bool} {length : Nat} (before : Blocks size answers length)
    (room : length < size) :
      Blocks size (answers ++ [true]) (length + 1)

variable {F : Type*} [Field F] [LinearOrder F] (params : Params F)

namespace Params

def initial : Table F := ⟨List.replicate params.windowSize 0, 0, 0, .start, 0, 0, 0⟩

/-- Of the sample if the number of keys is not known, of the binomial distribution otherwise. -/
def variance (window : List F) (mean : F) : F :=
  if params.numKeys = 0 then
    (window.map fun hitrate => (hitrate - mean) * (hitrate - mean)).sum /
      (params.windowSize - 1 : F)
  else
    mean * (1 - mean) / params.numKeys

def updateDistributionParams (hitrate : F) (table : Table F) : Table F :=
  let window := table.hitrateWindow.tail ++ [hitrate]
  let mean := table.hitrateMean + (hitrate - table.hitrateWindow.headD 0) / params.windowSize
  { table with
    hitrateWindow := window, hitrateMean := mean, hitrateVar := params.variance window mean }

end Params

/-- `abs(hitrate - mean) >= k * sqrt(var)`, squared. -/
def Table.Deviates (table : Table F) (k hitrate : F) : Prop :=
  k ^ 2 * table.hitrateVar ≤ (hitrate - table.hitrateMean) ^ 2

instance (table : Table F) (k hitrate : F) : Decidable (table.Deviates k hitrate) :=
  inferInstanceAs (Decidable (_ ≤ _))

theorem deviates_iff_sqrt (table : Table ℝ) {k : ℝ} (positive : 0 < k) (hitrate : ℝ) :
    table.Deviates k hitrate ↔ k * √table.hitrateVar ≤ |hitrate - table.hitrateMean| := by
  have product : k * √table.hitrateVar = √(k ^ 2 * table.hitrateVar) := by
    rw [Real.sqrt_mul (sq_nonneg k), Real.sqrt_sq positive.le]
  rw [product, Real.sqrt_le_iff, sq_abs]
  exact (and_iff_right (abs_nonneg _)).symm

namespace Params

variable [FloorRing F]

def getChebyshevProb (k : F) : F :=
  let term1 := 1 / (params.windowSize + 1 : F)
  let term2 := (params.windowSize + 1 : F) / params.windowSize
  let term3 := (params.windowSize - 1 : F) / (k * k) + 1
  term1 * ⌊term2 * term3⌋

def tableNeedsInsert (k hitrate draw : F) (table : Table F) : Bool × Table F :=
  match table.state with
  | .start =>
    let table := params.updateDistributionParams hitrate table
    let collected := table.windowSamplesCollected + 1
    (false, { table with
      windowSamplesCollected := collected
      state := if collected = params.windowSize then .insert else .start })
  | .insert =>
    let performed := table.insertionsPerformed + 1
    (true, { table with
      insertionsPerformed := performed
      state := if performed % params.numInsertsNeeded = 0 then .unstable else .insert })
  | .steady =>
    if table.Deviates k hitrate then
      let unsteady := table.consecutiveUnsteadySamples + 1
      if unsteady = params.maxUnsteadySamples then
        (false, { table with state := .insert, consecutiveUnsteadySamples := 0 })
      else
        (false, { table with consecutiveUnsteadySamples := unsteady })
    else
      (false, params.updateDistributionParams hitrate { table with
        consecutiveUnsteadySamples := 0 })
  | .unstable =>
    if table.Deviates k hitrate ∧ params.getChebyshevProb k < draw then
      (false, params.updateDistributionParams hitrate
        { table with state := .start, windowSamplesCollected := 1 })
    else
      (false, params.updateDistributionParams hitrate { table with state := .steady })

/-- A call for a table that does not exist throws. -/
def insertNeeded (tables : Nat → Table F) (call : Call F) : Option (Bool × (Nat → Table F)) :=
  params.kFactor[call.tableId]?.map fun k =>
    let (answer, table) := params.tableNeedsInsert k call.hitrate call.draw (tables call.tableId)
    (answer, Function.update tables call.tableId table)

variable {params} in
theorem insertNeeded_eq_some {tables after : Nat → Table F} {call : Call F} {answer : Bool}
    (returned : params.insertNeeded tables call = some (answer, after)) :
    ∃ k ∈ params.kFactor,
      (params.tableNeedsInsert k call.hitrate call.draw (tables call.tableId)).1 = answer ∧
      update tables call.tableId
        (params.tableNeedsInsert k call.hitrate call.draw (tables call.tableId)).2 = after := by
  obtain ⟨k, found, same⟩ := Option.map_eq_some_iff.mp returned
  exact ⟨k, mem_of_getElem? found, congrArg Prod.fst same, congrArg Prod.snd same⟩

/-- A call that returns `answer`, made under a condition. -/
def Step (allowed : (Nat → Table F) → Call F → Prop) (tables : Nat → Table F)
    (entry : Call F × Bool)
    (after : Nat → Table F) : Prop :=
  allowed tables entry.1 ∧ params.insertNeeded tables entry.1 = some (entry.2, after)

end Params

variable {params}

/-- Mean and variance are those of the window. -/
structure Table.Sampled (params : Params F) (table : Table F) : Prop where
  length : table.hitrateWindow.length = params.windowSize
  rates : ∀ hitrate ∈ table.hitrateWindow, 0 ≤ hitrate ∧ hitrate ≤ 1
  mean : table.hitrateMean * params.windowSize = table.hitrateWindow.sum
  var : table.hitrateVar = params.variance table.hitrateWindow table.hitrateMean

namespace Table.Sampled

variable {table : Table F} (sampled : table.Sampled params)
include sampled

theorem exists_cons : ∃ oldest rest, table.hitrateWindow = oldest :: rest := by
  have some_rates := Nat.zero_lt_of_lt params.windowSize_gt
  rw [← sampled.length] at some_rates
  exact exists_cons_of_length_pos some_rates

theorem length_update (hitrate : F) :
    (params.updateDistributionParams hitrate table).hitrateWindow.length = params.windowSize := by
  obtain ⟨oldest, rest, shape⟩ := sampled.exists_cons
  have length := sampled.length
  rw [shape] at length
  simpa [Params.updateDistributionParams, shape] using length

theorem rtake_update (hitrate : F) {count : Nat} {past : List F} (small : count < params.windowSize)
    (recent : table.hitrateWindow.rtake count = past.rtake count) :
    (params.updateDistributionParams hitrate table).hitrateWindow.rtake (count + 1) =
      (past ++ [hitrate]).rtake (count + 1) := by
  obtain ⟨oldest, rest, shape⟩ := sampled.exists_cons
  have length := sampled.length
  rw [shape, length_cons] at length
  have kept : rest.rtake count = (oldest :: rest).rtake count := by
    rw [List.rtake, List.rtake, length_cons, Nat.succ_sub (by omega), drop_succ_cons]
  simp only [Params.updateDistributionParams, shape, tail_cons]
  rw [rtake_concat_succ, rtake_concat_succ, kept, ← shape, recent]

theorem sum_deviations :
    (table.hitrateWindow.map fun hitrate => hitrate - table.hitrateMean).sum = 0 := by
  have split (rates : List F) (mean : F) :
      (rates.map fun hitrate => hitrate - mean).sum = rates.sum - mean * rates.length := by
    induction rates with
    | nil => simp
    | cons first rest ih =>
      rw [map_cons, sum_cons, ih, sum_cons, length_cons, Nat.cast_succ]
      ring
  rw [split, sampled.length, sampled.mean, sub_self]

end Table.Sampled

/-- How many `true` answers have come in a row. -/
def Params.openBlock (params : Params F) (table : Table F) : Nat :=
  match table.state with
  | .insert => table.insertionsPerformed % params.numInsertsNeeded
  | .unstable => params.numInsertsNeeded
  | .start | .steady => 0

/-- While a window is collected, its newest entries are the hit rates reported last. -/
structure Table.Collects (params : Params F) (past : List F) (table : Table F) : Prop where
  room : table.windowSamplesCollected < params.windowSize
  reached : table.windowSamplesCollected ≤ past.length
  recent : table.hitrateWindow.rtake table.windowSamplesCollected =
    past.rtake table.windowSamplesCollected

/-- What holds of a table between calls, given the hit rates reported for it and the answers
given. -/
structure Table.Inv (params : Params F) (past : List F) (given : List Bool) (table : Table F) :
    Prop where
  sampled : table.Sampled params
  blocks : Blocks params.numInsertsNeeded given (params.openBlock table)
  idle : table.state ≠ .insert → table.insertionsPerformed % params.numInsertsNeeded = 0
  unsteady : table.consecutiveUnsteadySamples < params.maxUnsteadySamples
  collects : table.state = .start → table.Collects params past

/-- The block is over when the counter comes to a multiple. -/
theorem Params.openBlock_insert (performed : Nat) :
    performed % params.numInsertsNeeded + 1 =
      if (performed + 1) % params.numInsertsNeeded = 0 then params.numInsertsNeeded
      else (performed + 1) % params.numInsertsNeeded := by
  rw [← Nat.mod_add_mod]
  rcases Nat.eq_or_lt_of_le (Nat.mod_lt performed params.numInsertsNeeded_pos) with last | inside
  · rw [show performed % params.numInsertsNeeded + 1 = params.numInsertsNeeded from last,
      Nat.mod_self, if_pos rfl]
  · rw [Nat.mod_eq_of_lt inside, if_neg (Nat.succ_ne_zero _)]

namespace Table.Inv

variable {table : Table F} {past : List F} {given : List Bool} (inv : table.Inv params past given)
include inv

theorem quiet {after : Table F} {hitrate : F} (sampled : after.Sampled params)
    (before : table.state ≠ .insert)
    (ended : after.state ≠ .unstable) (same : after.insertionsPerformed = table.insertionsPerformed)
    (unsteady : after.consecutiveUnsteadySamples < params.maxUnsteadySamples)
    (collects : after.state = .start → after.Collects params (past ++ [hitrate])) :
    after.Inv params (past ++ [hitrate]) (given ++ [false]) := by
  have none := inv.idle before
  have whole : params.openBlock table = 0 ∨ params.openBlock table = params.numInsertsNeeded := by
    rw [Params.openBlock]
    cases state : table.state with
    | insert => exact absurd state before
    | unstable => exact .inr rfl
    | start | steady => exact .inl rfl
  have closed : params.openBlock after = 0 := by
    rw [Params.openBlock, same, none]
    cases state : after.state with
    | unstable => exact absurd state ended
    | start | steady | insert => rfl
  exact ⟨sampled, closed ▸ inv.blocks.quiet whole, fun _ => same ▸ none, unsteady, collects⟩

end Table.Inv

variable [IsStrictOrderedRing F]

namespace Params

theorem windowSize_pos : (0 : F) < params.windowSize :=
  Nat.cast_pos.mpr (Nat.zero_lt_of_lt params.windowSize_gt)

theorem pred_windowSize_pos : (0 : F) < params.windowSize - 1 :=
  sub_pos.mpr (Nat.one_lt_cast.mpr params.windowSize_gt)

theorem sampled_initial : params.initial.Sampled params := by
  refine ⟨length_replicate, ?_, ?_, ?_⟩
  · intro hitrate member
    rw [eq_of_mem_replicate member]
    exact ⟨le_rfl, zero_le_one⟩
  · simp [initial]
  · simp [initial, variance]

theorem inv_initial : params.initial.Inv params [] [] where
  sampled := params.sampled_initial
  blocks := .nil
  idle _ := Nat.zero_mod _
  unsteady := params.maxUnsteadySamples_pos
  collects _ :=
    ⟨Nat.zero_lt_of_lt params.windowSize_gt, le_rfl, by rw [initial, rtake_zero, rtake_zero]⟩

end Params

namespace Table.Sampled

variable {table : Table F} (sampled : table.Sampled params)
include sampled

theorem update {hitrate : F} (low : 0 ≤ hitrate) (high : hitrate ≤ 1) :
    (params.updateDistributionParams hitrate table).Sampled params := by
  obtain ⟨oldest, rest, shape⟩ := sampled.exists_cons
  have mean := sampled.mean
  rw [shape] at mean
  refine ⟨sampled.length_update hitrate, ?_, ?_, rfl⟩
  · intro rate member
    simp only [Params.updateDistributionParams, shape, tail_cons, mem_append,
      mem_singleton] at member
    rcases member with kept | rfl
    · exact sampled.rates rate (shape ▸ mem_cons_of_mem _ kept)
    · exact ⟨low, high⟩
  · have positive : (params.windowSize : F) ≠ 0 := params.windowSize_pos.ne'
    rw [sum_cons] at mean
    simp only [Params.updateDistributionParams, shape, tail_cons, headD_cons, sum_append,
      sum_singleton]
    rw [add_mul, div_mul_cancel₀ _ positive, mean]
    ring

theorem mean_nonneg : 0 ≤ table.hitrateMean := by
  have sum : 0 ≤ table.hitrateWindow.sum :=
    sum_nonneg fun rate member => (sampled.rates rate member).1
  rw [← sampled.mean] at sum
  exact nonneg_of_mul_nonneg_left sum params.windowSize_pos

theorem mean_le_one : table.hitrateMean ≤ 1 := by
  have sum := sum_le_card_nsmul table.hitrateWindow 1 fun rate member =>
    (sampled.rates rate member).2
  rw [← sampled.mean, sampled.length, nsmul_one] at sum
  exact (mul_le_iff_le_one_left params.windowSize_pos).mp sum

theorem var_nonneg : 0 ≤ table.hitrateVar := by
  rw [sampled.var, Params.variance]
  split
  · refine div_nonneg (sum_nonneg ?_) params.pred_windowSize_pos.le
    intro square member
    obtain ⟨rate, -, rfl⟩ := mem_map.mp member
    exact mul_self_nonneg _
  · exact div_nonneg (mul_nonneg sampled.mean_nonneg (sub_nonneg.mpr sampled.mean_le_one))
      (Nat.cast_nonneg _)

theorem constant_of_sign {sign : F} (nonzero : sign ≠ 0)
    (above : ∀ hitrate ∈ table.hitrateWindow, 0 ≤ sign * (hitrate - table.hitrateMean))
    {hitrate : F}
    (member : hitrate ∈ table.hitrateWindow) : hitrate = table.hitrateMean := by
  have total : (table.hitrateWindow.map fun hitrate => sign * (hitrate - table.hitrateMean)).sum =
      0 := by
    rw [sum_map_mul_left, sampled.sum_deviations, mul_zero]
  have none :=
    all_zero_of_le_zero_le_of_sum_eq_zero (forall_mem_map.mpr above) total (mem_map_of_mem member)
  exact sub_eq_zero.mp ((mul_eq_zero.mp none).resolve_left nonzero)

theorem constant_of_var_eq_zero (zero : table.hitrateVar = 0) {hitrate : F}
    (member : hitrate ∈ table.hitrateWindow) :
    hitrate = table.hitrateMean := by
  rw [sampled.var, Params.variance] at zero
  split at zero
  · have squares := (div_eq_zero_iff.mp zero).resolve_right params.pred_windowSize_pos.ne'
    have none :=
      all_zero_of_le_zero_le_of_sum_eq_zero
        (forall_mem_map.mpr fun _ _ => mul_self_nonneg _) squares
      (mem_map_of_mem member)
    exact sub_eq_zero.mp (mul_self_eq_zero.mp none)
  · have extreme := (div_eq_zero_iff.mp zero).resolve_right (Nat.cast_ne_zero.mpr ‹_›)
    rcases mul_eq_zero.mp extreme with low | high
    · refine sampled.constant_of_sign one_ne_zero (fun rate inside => ?_) member
      rw [low, sub_zero, one_mul]
      exact (sampled.rates rate inside).1
    · refine sampled.constant_of_sign (neg_ne_zero.mpr one_ne_zero) (fun rate inside => ?_) member
      rw [← sub_eq_zero.mp high, neg_one_mul, neg_sub]
      exact sub_nonneg.mpr (sampled.rates rate inside).2

theorem var_update_pos (positive : 0 < table.hitrateVar) :
    0 < (params.updateDistributionParams table.hitrateMean table).hitrateVar := by
  have updated := sampled.update sampled.mean_nonneg sampled.mean_le_one
  refine lt_of_le_of_ne updated.var_nonneg fun zero => ?_
  obtain ⟨oldest, rest, shape⟩ := sampled.exists_cons
  have same :=
    updated.constant_of_var_eq_zero zero.symm
      (mem_append_right _ (mem_singleton_self table.hitrateMean))
  -- the mean stays, so the rate that leaves the window is the one that enters it
  have left : (table.hitrateMean - oldest) / params.windowSize = 0 := by
    simpa [Params.updateDistributionParams, shape] using same
  have equal := sub_eq_zero.mp ((div_eq_zero_iff.mp left).resolve_right params.windowSize_pos.ne')
  have turned : (params.updateDistributionParams table.hitrateMean table).hitrateWindow.Perm
      table.hitrateWindow := by
    rw [Params.updateDistributionParams, shape, tail_cons, equal]
    exact perm_append_singleton oldest rest
  rw [updated.var, ← same, Params.variance, (turned.map _).sum_eq, ← Params.variance,
    ← sampled.var] at zero
  exact positive.ne zero

end Table.Sampled

variable [FloorRing F]

namespace Table.Inv

variable {table : Table F} {past : List F} {given : List Bool} (inv : table.Inv params past given)
include inv

theorem next (k draw : F) {hitrate : F} (low : 0 ≤ hitrate) (high : hitrate ≤ 1) :
    (params.tableNeedsInsert k hitrate draw table).2.Inv params (past ++ [hitrate])
      (given ++ [(params.tableNeedsInsert k hitrate draw table).1]) := by
  have updated := inv.sampled.update low high
  have kept := inv.sampled
  rw [Params.tableNeedsInsert]
  cases state : table.state with
  | start =>
    obtain ⟨small, reached, recent⟩ := inv.collects state
    refine inv.quiet ⟨updated.length, updated.rates, updated.mean, updated.var⟩
      (state ▸ nofun) ?_ rfl inv.unsteady ?_
    · dsimp only
      split <;> exact nofun
    · intro still
      have unfinished : table.windowSamplesCollected + 1 ≠ params.windowSize := fun full => by
        simp [Params.updateDistributionParams, full] at still
      refine ⟨lt_of_le_of_ne small unfinished, ?_, inv.sampled.rtake_update hitrate small recent⟩
      rw [length_append]
      exact Nat.succ_le_succ reached
  | insert =>
    have blocks := inv.blocks
    rw [Params.openBlock, state] at blocks
    have grown := blocks.more (Nat.mod_lt _ params.numInsertsNeeded_pos)
    rw [Params.openBlock_insert] at grown
    dsimp only
    split at grown
    · have ended := ‹(table.insertionsPerformed + 1) % params.numInsertsNeeded = 0›
      rw [if_pos ended]
      exact ⟨⟨kept.length, kept.rates, kept.mean, kept.var⟩, grown,
        fun _ => ended, inv.unsteady, nofun⟩
    · rw [if_neg ‹_›]
      exact ⟨⟨kept.length, kept.rates, kept.mean, kept.var⟩, grown,
        fun other => absurd rfl other, inv.unsteady, nofun⟩
  | steady =>
    have before : table.state ≠ .insert := state ▸ nofun
    dsimp only
    split
    · split
      · exact inv.quiet ⟨kept.length, kept.rates, kept.mean, kept.var⟩ before nofun rfl
          params.maxUnsteadySamples_pos nofun
      · exact inv.quiet ⟨kept.length, kept.rates, kept.mean, kept.var⟩ before nofun rfl
          (lt_of_le_of_ne inv.unsteady ‹_›) nofun
    · exact inv.quiet ⟨updated.length, updated.rates, updated.mean, updated.var⟩ before nofun rfl
        params.maxUnsteadySamples_pos nofun
  | unstable =>
    have before : table.state ≠ .insert := state ▸ nofun
    dsimp only
    split
    · have nothing : table.hitrateWindow.rtake 0 = past.rtake 0 := by rw [rtake_zero, rtake_zero]
      have first :=
        inv.sampled.rtake_update hitrate (Nat.zero_lt_of_lt params.windowSize_gt) nothing
      exact inv.quiet ⟨updated.length, updated.rates, updated.mean, updated.var⟩ before nofun
        rfl inv.unsteady
        fun _ => ⟨params.windowSize_gt, by simp [Params.updateDistributionParams], first⟩
    · exact inv.quiet ⟨updated.length, updated.rates, updated.mean, updated.var⟩ before nofun
        rfl inv.unsteady nofun

end Table.Inv

variable {tables after : Nat → Table F}

def Rates (_ : Nat → Table F) (call : Call F) : Prop := 0 ≤ call.hitrate ∧ call.hitrate ≤ 1

theorem inv_of_run {log : List (Call F × Bool)} {tables : Nat → Table F}
    (run : Run (params.Step Rates) (fun _ => params.initial) log tables) (tableId : Nat) :
    (tables tableId).Inv params (reported tableId log) (answers tableId log) := by
  refine run.invariant_history (fun log tables =>
    (tables tableId).Inv params (reported tableId log) (answers tableId log))
    ?_ [] params.inv_initial
  intro past tables entry after taken inv
  obtain ⟨⟨low, high⟩, returned⟩ := taken
  obtain ⟨k, -, given, rfl⟩ := Params.insertNeeded_eq_some returned
  rw [reported, answers, own_append]
  by_cases same : entry.1.tableId = tableId
  · subst same
    rw [if_pos rfl, map_append, map_append, update_self, map_singleton, map_singleton, ← given]
    exact inv.next k entry.1.draw low high
  · rw [if_neg same, append_nil, update_of_ne (Ne.symm same)]
    exact inv

/-- One table, windows of two hit rates, blocks of one insert, and one bad sample that starts the
next. -/
def oneTable : Params ℚ where
  numKeys := 1
  kFactor := [1]
  windowSize := 2
  numInsertsNeeded := 1
  maxUnsteadySamples := 1
  kFactor_some := List.cons_ne_nil _ _
  windowSize_gt := Nat.one_lt_two
  numInsertsNeeded_pos := Nat.one_pos
  maxUnsteadySamples_pos := Nat.one_pos
  kFactor_pos k member := by rw [List.mem_singleton.mp member]; exact one_pos

def holding (table : Table ℚ) : Nat → Table ℚ := Function.update (fun _ => oneTable.initial) 0 table

theorem holding_step {table after : Table ℚ} {hitrate : ℚ} {answer : Bool} (low : 0 ≤ hitrate)
    (high : hitrate ≤ 1)
    (returned : oneTable.tableNeedsInsert 1 hitrate 0 table = (answer, after)) :
    oneTable.Step Rates (holding table) (⟨hitrate, 0, 0⟩, answer) (holding after) := by
  refine ⟨⟨low, high⟩, ?_⟩
  have first : oneTable.kFactor[0]? = some 1 := rfl
  rw [Params.insertNeeded, first, Option.map_some, holding, update_self, returned]
  dsimp only
  rw [update_idem, holding]

theorem holding_initial : holding oneTable.initial = fun _ => oneTable.initial := update_eq_self 0 _

theorem allHit_run : Run (oneTable.Step Rates) (fun _ => oneTable.initial)
    [(⟨1, 0, 0⟩, false), (⟨1, 0, 0⟩, false), (⟨1, 0, 0⟩, true), (⟨1, 0, 0⟩, false)]
    (holding ⟨[1, 1], 1, 0, .steady, 2, 1, 0⟩) := by
  have first : oneTable.tableNeedsInsert 1 1 0
      oneTable.initial = (false, ⟨[0, 1], 1 / 2, 1 / 4, .start, 1, 0, 0⟩) := by
    decide +kernel
  have second : oneTable.tableNeedsInsert 1 1 0 ⟨[0, 1], 1 / 2, 1 / 4, .start, 1, 0, 0⟩ =
      (false, ⟨[1, 1], 1, 0, .insert, 2, 0, 0⟩) := by
    decide +kernel
  have third : oneTable.tableNeedsInsert 1 1 0 ⟨[1, 1], 1, 0, .insert, 2, 0, 0⟩ =
      (true, ⟨[1, 1], 1, 0, .unstable, 2, 1, 0⟩) := by
    decide +kernel
  have fourth : oneTable.tableNeedsInsert 1 1 0 ⟨[1, 1], 1, 0, .unstable, 2, 1, 0⟩ =
      (false, ⟨[1, 1], 1, 0, .steady, 2, 1, 0⟩) := by
    decide +kernel
  rw [← holding_initial]
  exact .step (holding_step zero_le_one le_rfl first)
    (.step (holding_step zero_le_one le_rfl second)
    (.step (holding_step zero_le_one le_rfl third)
      (.step (holding_step zero_le_one le_rfl fourth) (.done _))))

/-- In every run: mean and variance, the blocks of `true`, the window a block starts with, and other
tables. -/
theorem heuristic_run_invariants {log : List (Call F × Bool)} {tables : Nat → Table F}
    (run : Run (params.Step Rates) (fun _ => params.initial) log tables) (tableId : Nat) :
    (tables tableId).hitrateMean = (tables tableId).hitrateWindow.sum / params.windowSize ∧
      0 ≤ (tables tableId).hitrateVar ∧
      (∃ length, Blocks params.numInsertsNeeded (answers tableId log) length) ∧
      ∀ call answer after, params.insertNeeded tables call = some (answer, after) →
        (call.tableId ≠ tableId → after tableId = tables tableId) ∧
        (call.tableId = tableId → (tables tableId).state = .start →
          (after tableId).state = .insert →
          params.windowSize ≤ (reported tableId (log ++ [(call, answer)])).length ∧
          (after tableId).hitrateWindow =
            (reported tableId (log ++ [(call, answer)])).rtake params.windowSize) := by
  have inv := inv_of_run run tableId
  refine ⟨eq_div_of_mul_eq params.windowSize_pos.ne' inv.sampled.mean, inv.sampled.var_nonneg,
    ⟨_, inv.blocks⟩, ?_⟩
  intro call answer after returned
  obtain ⟨k, -, -, rfl⟩ := Params.insertNeeded_eq_some returned
  constructor
  · intro other
    exact update_of_ne other.symm _ _
  · intro same start entered
    subst same
    obtain ⟨small, reached, recent⟩ := inv.collects start
    have next := inv.sampled.rtake_update call.hitrate small recent
    have full : (tables call.tableId).windowSamplesCollected + 1 = params.windowSize := by
      by_contra unfinished
      simp [Params.tableNeedsInsert, start, Params.updateDistributionParams, unfinished] at entered
    have all :
        (params.updateDistributionParams call.hitrate (tables call.tableId)).hitrateWindow.rtake
        params.windowSize =
        (params.updateDistributionParams call.hitrate (tables call.tableId)).hitrateWindow := by
      rw [List.rtake, inv.sampled.length_update, Nat.sub_self, drop_zero]
    rw [full, all] at next
    rw [reported, own_append, if_pos rfl, map_append, update_self, Params.tableNeedsInsert, start,
      length_append]
    exact ⟨full ▸ Nat.succ_le_succ reached, next⟩

theorem heuristic_run_invariants_allHit :
    ∃ length, Blocks 1 [false, false, true, false] length :=
  (heuristic_run_invariants allHit_run 0).2.2.1

/-- Every hit rate reported for the table is the mean of its window. -/
def Calm (tableId : Nat) (tables : Nat → Table F) (call : Call F) : Prop :=
  call.tableId = tableId → call.hitrate = (tables tableId).hitrateMean

variable {tableId : Nat}

theorem steady_of_calm {later : List (Call F × Bool)} (sampled : (tables tableId).Sampled params)
    (steady : (tables tableId).state = .steady) (positive : 0 < (tables tableId).hitrateVar)
    (run : Run (params.Step (Calm tableId)) tables later after) :
    true ∉ answers tableId later := by
  refine (run.invariant_history (fun log tables => (tables tableId).Sampled params ∧
    (tables tableId).state = .steady ∧
    0 < (tables tableId).hitrateVar ∧ true ∉ answers tableId log) ?_ []
      ⟨sampled, steady, positive, not_mem_nil⟩).2.2.2
  intro past tables entry after taken held
  obtain ⟨sampled, steady, positive, none⟩ := held
  obtain ⟨k, member, given, rfl⟩ := Params.insertNeeded_eq_some taken.2
  rw [answers, own_append]
  by_cases same : entry.1.tableId = tableId
  · subst same
    have near : ¬ (tables entry.1.tableId).Deviates k entry.1.hitrate := by
      rw [taken.1 rfl, Table.Deviates, sub_self, zero_pow two_ne_zero, not_le]
      exact mul_pos (pow_pos (params.kFactor_pos k member) 2) positive
    rw [Params.tableNeedsInsert, steady] at given
    rw [Params.tableNeedsInsert, steady, if_pos rfl, update_self, map_append, mem_append]
    dsimp only at given ⊢
    rw [if_neg near] at given ⊢
    rw [taken.1 rfl]
    have updated := sampled.update sampled.mean_nonneg sampled.mean_le_one
    refine ⟨⟨updated.length, updated.rates, updated.mean, updated.var⟩, rfl,
      sampled.var_update_pos positive, ?_⟩
    rintro (before | now)
    · exact none before
    · simp [← given] at now
  · rw [if_neg same, append_nil, update_of_ne (Ne.symm same)]
    exact ⟨sampled, steady, positive, none⟩

omit [IsStrictOrderedRing F] in
theorem step_mean (known : tableId < params.kFactor.length) (tables : Nat → Table F) :
    params.Step (Calm tableId) tables
      (⟨(tables tableId).hitrateMean, tableId, 0⟩,
        (params.tableNeedsInsert params.kFactor[tableId] (tables tableId).hitrateMean 0
          (tables tableId)).1)
      (update tables tableId
        (params.tableNeedsInsert params.kFactor[tableId] (tables tableId).hitrateMean 0
          (tables tableId)).2) := by
  refine ⟨fun _ => rfl, ?_⟩
  rw [Params.insertNeeded, List.getElem?_eq_getElem known, Option.map_some]

theorem asks_of_var_eq_zero (known : tableId < params.kFactor.length) (tables : Nat → Table F)
    (steady : (tables tableId).state = .steady) (zero : (tables tableId).hitrateVar = 0)
    (unsteady : (tables tableId).consecutiveUnsteadySamples < params.maxUnsteadySamples) :
    ∃ later after, Run (params.Step (Calm tableId)) tables later after ∧
      true ∈ answers tableId later := by
  -- on the samples that are missing to `max_unsteady_samples`
  induction missing : params.maxUnsteadySamples -
    (tables tableId).consecutiveUnsteadySamples generalizing tables with
  | zero => omega
  | succ missing ih =>
    have far : (tables tableId).Deviates params.kFactor[tableId] (tables tableId).hitrateMean := by
      rw [Table.Deviates, zero, mul_zero]
      exact sq_nonneg _
    have bad := step_mean known tables
    rw [Params.tableNeedsInsert, steady] at bad
    dsimp only at bad
    rw [if_pos far] at bad
    split at bad
    · have asked := step_mean known (update tables tableId
        { tables tableId with state := .insert, consecutiveUnsteadySamples := 0 })
      rw [update_self] at asked
      exact ⟨_, _,
        .step bad (.step asked (.done _)), by simp [answers, own, Params.tableNeedsInsert]⟩
    · obtain ⟨later, after, run, asked⟩ := ih (update tables tableId { tables tableId with
          state := .steady, consecutiveUnsteadySamples :=
            (tables tableId).consecutiveUnsteadySamples + 1 })
        (by rw [update_self]) (by rw [update_self]; exact zero)
        (by rw [update_self]; exact lt_of_le_of_ne unsteady ‹_›)
          (by rw [update_self]; dsimp only; omega)
      exact ⟨_, after, .step bad run, (((sublist_cons_self _ later).filter _).map _).subset asked⟩

/-- The hit rates 0 and 1, an insert, and a hit rate at the mean. -/
theorem halfHit_run : Run (oneTable.Step Rates) (fun _ => oneTable.initial)
    [(⟨0, 0, 0⟩, false), (⟨1, 0, 0⟩, false), (⟨1, 0, 0⟩, true), (⟨1 / 2, 0, 0⟩, false)]
    (holding ⟨[1, 1 / 2], 3 / 4, 3 / 16, .steady, 2, 1, 0⟩) := by
  have first : oneTable.tableNeedsInsert 1 0 0
      oneTable.initial = (false, ⟨[0, 0], 0, 0, .start, 1, 0, 0⟩) := by
    decide +kernel
  have second : oneTable.tableNeedsInsert 1 1 0 ⟨[0, 0], 0, 0, .start, 1, 0, 0⟩ =
      (false, ⟨[0, 1], 1 / 2, 1 / 4, .insert, 2, 0, 0⟩) := by
    decide +kernel
  have third : oneTable.tableNeedsInsert 1 1 0 ⟨[0, 1], 1 / 2, 1 / 4, .insert, 2, 0, 0⟩ =
      (true, ⟨[0, 1], 1 / 2, 1 / 4, .unstable, 2, 1, 0⟩) := by
    decide +kernel
  have fourth : oneTable.tableNeedsInsert 1 (1 / 2) 0 ⟨[0, 1], 1 / 2, 1 / 4, .unstable, 2, 1, 0⟩ =
      (false, ⟨[1, 1 / 2], 3 / 4, 3 / 16, .steady, 2, 1, 0⟩) := by
    decide +kernel
  rw [← holding_initial]
  exact .step (holding_step le_rfl zero_le_one first)
    (.step (holding_step zero_le_one le_rfl second)
    (.step (holding_step zero_le_one le_rfl third)
      (.step (holding_step (by norm_num) (by norm_num) fourth) (.done _))))

/-- A table in the steady state stays there on hit rates equal to its mean, exactly if its variance
is positive. -/
theorem steady_stays_iff {log : List (Call F × Bool)} {tables : Nat → Table F}
    (run : Run (params.Step Rates) (fun _ => params.initial) log tables) {tableId : Nat}
    (known : tableId < params.kFactor.length) (steady : (tables tableId).state = .steady) :
    (∀ later after, Run (params.Step (Calm tableId)) tables later after →
      true ∉ answers tableId later) ↔
      0 < (tables tableId).hitrateVar := by
  have inv := inv_of_run run tableId
  constructor
  · intro never
    refine lt_of_le_of_ne inv.sampled.var_nonneg fun zero => ?_
    obtain ⟨later, after, calm, asked⟩ :=
      asks_of_var_eq_zero known tables steady zero.symm inv.unsteady
    exact never later after calm asked
  · intro positive later after calm
    exact steady_of_calm inv.sampled steady positive calm

theorem steady_stays_iff_allHit :
    (¬ ∀ later after, Run (oneTable.Step (Calm 0)) (holding ⟨[1, 1], 1, 0, .steady, 2, 1, 0⟩)
      later after →
      true ∉ answers 0 later) ∧
    ∀ later after, Run (oneTable.Step (Calm 0))
      (holding ⟨[1, 1 / 2], 3 / 4, 3 / 16, .steady, 2, 1, 0⟩) later after →
      true ∉ answers 0 later := by
  constructor
  · intro never
    exact lt_irrefl 0 ((steady_stays_iff allHit_run Nat.one_pos rfl).mp never)
  · have positive : (0 : ℚ) < 3 / 16 := by norm_num
    exact (steady_stays_iff halfHit_run Nat.one_pos rfl).mpr positive

theorem perfect_hitrate_asks_again :
    ∃ log tables, Run (oneTable.Step Rates) (fun _ => oneTable.initial) log tables ∧
    (tables 0).state = .steady ∧ (tables 0).hitrateMean = 1 ∧
    ∃ later after, Run (oneTable.Step (Calm 0)) tables later after ∧ true ∈ answers 0 later :=
  ⟨_, _, allHit_run, rfl, rfl, asks_of_var_eq_zero Nat.one_pos _ rfl rfl Nat.one_pos⟩

end EmbedCache.StatisticalInsertHeuristic
