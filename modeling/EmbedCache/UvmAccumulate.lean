import EmbedCache.Lib.TaskPool
import EmbedCache.ModifySizes

/-! `GpuTable::update_accumulate` for a table whose rows lie in unified memory.

The cache is updated first. Then the rows behind it are added to by a kernel or, with
`uvm_cpu_accumulate`, by tasks of the thread pool; from half a wave of tasks on the rows
are copied to the host in parts and a launcher submits the tasks of a part once its copy
has arrived. The three ways check the data types at different places. -/

namespace EmbedCache

open Lib

variable {w : Nat} {C : Type*}

structure UvmSettings where
  uvmCpuAccumulate : Bool
  disableUvmUpdate : Bool
  numWorkers : Nat

structure TableState (w : Nat) (C : Type*) where
  cache : CacheState w C
  uvm : Memory

structure AccumulateCall (w : Nat) where
  updateDtype : DataType
  keys : List (BitVec w)
  updateSize : Int
  buffer : RowBuffer

inductive UvmCall
  | lookupEvents
  | streamDependency
  | copyKeys
  | copyUpdates
  | streamSynchronize
  | executeTasks
  | submitLauncher
  | launchKernel
  | destroyEvents
  | updateEvents
  deriving DecidableEq, Repr

structure UvmEnvironment where
  outcome : UvmCall → Bool
  eventSynchronize : Nat → Bool

inductive Ending
  | returned
  | threw
  | waiting
  deriving DecidableEq, Repr

abbrev UvmStep := GuardedStep UvmCall Bool Memory

/-- `NVE_CHECK_` of a condition before the call of a step. -/
def checked (condition : Prop) [Decidable condition] : Option Bool :=
  if condition then none else some false

namespace GpuTable

section Rows

variable (add : (Nat → UInt8) → (Nat → UInt8) → Nat → UInt8)

def accumulateRow (width : Nat) (memory : Memory) (key : BitVec w) (row : Nat → UInt8) : Memory :=
  blit memory (key.toNat * width) width (add (rowBytes memory (key.toNat * width) width) row)

def accumulateRange (width : Nat) (keys : List (BitVec w)) (buffer : RowBuffer) (start stop : Nat)
    (memory : Memory) :
    Memory :=
  ((keys.zipIdx.drop start).take (stop - start)).foldl
    (fun memory hit => accumulateRow add width memory hit.1 (buffer.row hit.2)) memory

/-- `UpdateAccumulateTableKernel`: the key count is an `int32_t`, source offsets are added up in 32
bits. -/
def updateAccumulateTableKernel (element rowSize : Nat) (keys : List (BitVec w))
    (buffer : RowBuffer) (memory : Memory) :
    Memory :=
  let width := wrap32 (rowSize / element) * element
  let stride := wrap32 ((buffer.stride % 2 ^ 64).toNat / element)
  let numIndices := if wrap32 keys.length < 2 ^ 31 then wrap32 keys.length else 0
  (keys.zipIdx.take numIndices).foldl (fun memory hit => accumulateRow add width memory hit.1
    fun offset => buffer.values (wrap32 (hit.2 * stride) * element + offset)) memory

end Rows

variable (config : GPUTableConfig) (settings : UvmSettings) (cfg : CacheConfig w C)
  (arithmetic : RowArithmetic)

inductive UvmPath
  | gpu
  | serial
  | parallel
  deriving DecidableEq, Repr

def keysPerTask : Nat := 512

def parallelUpdateThreshold : Nat := settings.numWorkers * keysPerTask / 2

def uvmPath (numKeys : Nat) : UvmPath :=
  if settings.uvmCpuAccumulate then
    if parallelUpdateThreshold settings ≤ numKeys then .parallel else .serial
  else .gpu

def uvmPrologue : List UvmStep :=
  (if config.privateStream then [] else [⟨.lookupEvents, none, id⟩]) ++
    [⟨.streamDependency, none, id⟩]

def uvmEpilogue : List UvmStep := [⟨.updateEvents, none, id⟩]

variable (format : DataTypeFormat) (call : AccumulateCall w)

def rowSize : Nat := (config.rowSizeInBytes % 2 ^ 64).toNat

/-- There is no kernel for a row without elements. -/
def gpuSteps : List UvmStep :=
  [⟨.copyKeys, none, id⟩,
   ⟨.launchKernel, checked (config.valueDtype = call.updateDtype ∧
     wrap32 (rowSize config / elementBytes format) ≠ 0),
    updateAccumulateTableKernel (arithmetic.elementSum format) (elementBytes format)
      (rowSize config) call.keys call.buffer⟩]

def serialSteps : List UvmStep :=
  let numKeys := call.keys.length
  let updatesPerTask := min 1024 ((numKeys + settings.numWorkers - 1) / settings.numWorkers)
  let numTasks := (numKeys + updatesPerTask - 1) / updatesPerTask
  [⟨.copyKeys, none, id⟩,
   ⟨.copyUpdates, checked (call.updateSize = call.buffer.stride), id⟩,
   ⟨.streamSynchronize, none, id⟩,
   ⟨.executeTasks, checked (config.valueDtype = call.updateDtype ∧
     call.updateSize % elementBytes format = 0),
    fun memory =>
      (List.range numTasks).foldl (fun memory idx => accumulateRange (arithmetic.elementSum format)
      (rowSize config) call.keys call.buffer (idx * updatesPerTask)
        (min ((idx + 1) * updatesPerTask) numKeys) memory)
      memory⟩]

/-- The copies in parts, up to the submission of the launcher. The types are not compared here. -/
def parallelSteps : List UvmStep :=
  [⟨.copyKeys, none, id⟩,
   ⟨.copyUpdates, checked (call.updateSize = call.buffer.stride), id⟩,
   ⟨.submitLauncher, checked (call.updateSize % elementBytes format = 0), id⟩]

def numCopies (numKeys : Nat) : Nat :=
  let keysPerCopy := keysPerTask * settings.numWorkers
  (numKeys + keysPerCopy - 1) / keysPerCopy

/-- The launcher waits for the event of a copy and submits one task for each worker: its first
key. -/
def launcherBatches (env : UvmEnvironment) (numKeys : Nat) : List (Bool × List Nat) :=
  (List.range (numCopies settings numKeys)).map fun i =>
    (env.eventSynchronize i, (List.range settings.numWorkers).map fun idx =>
      i * (keysPerTask * settings.numWorkers) + idx * keysPerTask)

def updateTask (startKey : Nat) (memory : Memory) : Memory :=
  accumulateRange (arithmetic.elementSum format) (rowSize config) call.keys call.buffer startKey
    (min (startKey + keysPerTask) call.keys.length) memory

def ended (result : Bool × Memory) : Ending := if result.1 then .returned else .threw

def UvmEnds (env : UvmEnvironment) (before : Memory) (ending : Ending) (after : Memory) : Prop :=
  match uvmPath settings call.keys.length with
  | .gpu =>
    let result := runSteps true env.outcome
      (uvmPrologue config ++ (gpuSteps config arithmetic format call ++ uvmEpilogue)) before
    ending = ended result ∧ after = result.2
  | .serial =>
    let result := runSteps true env.outcome
      (uvmPrologue config ++ (serialSteps config settings arithmetic format call ++ uvmEpilogue))
        before
    ending = ended result ∧ after = result.2
  | .parallel =>
    let ready := runSteps true env.outcome (uvmPrologue config ++ parallelSteps format call) before
    if ready.1 then
      ∃ moves final, Countdown.Reaches (updateTask config arithmetic format call)
          (Countdown.start (launcherBatches settings env call.keys.length) ready.2) moves final ∧
        final.Stopped (updateTask config arithmetic format call) ∧
        if final.signalled then
          let result :=
            runSteps true env.outcome (⟨.destroyEvents, none, id⟩ :: uvmEpilogue) final.state
          ending = ended result ∧ after = result.2
        else ending = .waiting ∧ after = final.state
    else ending = .threw ∧ after = ready.2

/-- `update_accumulate` as a whole. Nothing is said after an overrun of the cache side. -/
def AccumulateEnds (cacheEnv : Nat → Environment w) (env : UvmEnvironment) (before : TableState w C)
    (ending : Ending)
    (after : TableState w C) : Prop :=
  match updateAccumulate config cfg arithmetic cacheEnv call.updateDtype call.keys call.updateSize
    call.buffer before.cache,
      trsDataToEC call.updateDtype with
  | none, _ => True
  | some (.success, cache), some format =>
    if call.keys.isEmpty ∨ settings.disableUvmUpdate then
      ending = .returned ∧ after = ⟨cache, before.uvm⟩
    else after.cache = cache ∧
      UvmEnds config settings arithmetic format call env before.uvm ending after.uvm
  | some (.success, cache), none => ending = .returned ∧ after = ⟨cache, before.uvm⟩
  | some (_, cache), _ => ending = .threw ∧ after = ⟨cache, before.uvm⟩

/-! ### Which data types are accepted -/

/-- The pairs that `update_accumulate` is meant for: both types have a cache format, and the rows in
unified memory, where they are to be changed, have the type of the updates. -/
def Supported (updateDtype : DataType) : Prop :=
  (trsDataToEC updateDtype).isSome ∧ (trsDataToEC config.valueDtype).isSome ∧
    (settings.disableUvmUpdate ∨ updateDtype = config.valueDtype)

/-- An unsupported pair is rejected with nothing changed, a supported one is accepted. -/
structure Uniform (cacheEnv : Nat → Environment w) (env : UvmEnvironment)
    (before : TableState w C) : Prop where
  rejects : ¬ Supported config settings call.updateDtype → ∀ ending after,
    AccumulateEnds config settings cfg arithmetic call cacheEnv env before ending after →
      ending = .threw ∧ after.uvm = before.uvm ∧
        ∀ key, find cfg key after.cache = find cfg key before.cache
  accepts : Supported config settings call.updateDtype → ∀ ending after,
    AccumulateEnds config settings cfg arithmetic call cacheEnv env before ending after →
      ending = .returned

section Paths

variable {config settings format call} {env : UvmEnvironment}
  (calls : ∀ call, env.outcome call = true)
  (before : Memory)

include calls

theorem prologue_runs (steps : List UvmStep) :
    runSteps true env.outcome (uvmPrologue config ++ steps) before =
      runSteps true env.outcome steps before := by
  cases stream :
    config.privateStream <;> simp [uvmPrologue, runSteps, GuardedStep.result, calls, stream]

theorem gpu_rejects (mixed : config.valueDtype ≠ call.updateDtype) :
    runSteps true env.outcome
      (uvmPrologue config ++ (gpuSteps config arithmetic format call ++ uvmEpilogue)) before =
      (false, before) := by
  rw [prologue_runs calls]
  simp [gpuSteps, runSteps, GuardedStep.result, checked, calls, mixed]

theorem serial_rejects (mixed : config.valueDtype ≠ call.updateDtype) :
    runSteps true env.outcome
      (uvmPrologue config ++ (serialSteps config settings arithmetic format call ++ uvmEpilogue))
        before =
      (false, before) := by
  rw [prologue_runs calls]
  by_cases packed : call.updateSize = call.buffer.stride <;>
    simp [serialSteps, runSteps, GuardedStep.result, checked, calls, mixed, packed]

theorem parallel_ready (packed : call.updateSize = call.buffer.stride)
    (whole : call.updateSize % elementBytes format = 0) :
    runSteps true env.outcome (uvmPrologue config ++ parallelSteps format call) before =
      (true, before) := by
  rw [prologue_runs calls]
  simp [parallelSteps, runSteps, GuardedStep.result, checked, calls, packed, ← whole]

variable {numKeys : Nat}

omit calls in
theorem launcherBatches_nonempty (keys : 0 < numKeys) (workers : 0 < settings.numWorkers) :
    launcherBatches settings env numKeys ≠ [] := by
  have copies : 0 < numCopies settings numKeys := by
    have part : 0 < keysPerTask * settings.numWorkers := Nat.mul_pos (by decide) workers
    exact Nat.div_pos (by omega) part
  simp only [launcherBatches, ne_eq, List.map_eq_nil_iff, List.range_eq_nil]
  omega

omit calls in
theorem launcherBatches_tasks (workers : 0 < settings.numWorkers) :
    ∀ batch ∈ launcherBatches settings env numKeys, batch.2 ≠ [] := by
  intro batch member
  obtain ⟨i, _, rfl⟩ := List.mem_map.mp member
  simp only [ne_eq, List.map_eq_nil_iff, List.range_eq_nil]
  omega

omit calls in
theorem launcherBatches_ready :
    (∀ batch ∈ launcherBatches settings env numKeys, batch.1 = true) ↔
      ∀ i < numCopies settings numKeys, env.eventSynchronize i = true := by
  simp [launcherBatches]

section Parallel

variable (path : uvmPath settings call.keys.length = .parallel) (nonempty : call.keys ≠ [])
  (workers : 0 < settings.numWorkers) (packed : call.updateSize = call.buffer.stride)
  (whole : call.updateSize % elementBytes format = 0)

include path nonempty workers packed whole

/-- On the parallel way the call returns if all copies arrive and waits for ever otherwise. -/
theorem parallel_ends {ending : Ending} {after : Memory}
    (ends : UvmEnds config settings arithmetic format call env before ending after) :
    ending = if ∀ i < numCopies settings call.keys.length,
      env.eventSynchronize i = true then .returned else .waiting := by
  simp only [UvmEnds, path, parallel_ready calls before packed whole, if_true] at ends
  obtain ⟨moves, final, run, stopped, result⟩ := ends
  have signalled :=
    Countdown.signalled_iff (launcherBatches_nonempty (List.length_pos_iff.mpr nonempty) workers)
    (launcherBatches_tasks workers) run stopped
  rw [launcherBatches_ready] at signalled
  split at result
  · rename_i set
    rw [if_pos (signalled.mp set), result.1]
    simp [uvmEpilogue, runSteps, GuardedStep.result, calls, ended]
  · rename_i unset
    rw [if_neg fun arrived => unset (signalled.mpr arrived)]
    exact result.1

theorem parallel_exists :
    ∃ ending after, UvmEnds config settings arithmetic format call env before ending after := by
  simp only [UvmEnds, path, parallel_ready calls before packed whole, if_true]
  obtain ⟨moves, final, run, stopped⟩ :
      ∃ moves final, Countdown.Reaches (updateTask config arithmetic format call)
      (Countdown.start (launcherBatches settings env call.keys.length) before) moves final ∧
      final.Stopped (updateTask config arithmetic format call) :=
    Countdown.exists_stopped _ (Countdown.balanced_start
      (launcherBatches_nonempty (List.length_pos_iff.mpr nonempty) workers)
        (launcherBatches_tasks workers) before)
  by_cases set : final.signalled = true
  · exact ⟨_, _, moves, final, run, stopped, by rw [if_pos set]; exact ⟨rfl, rfl⟩⟩
  · exact ⟨_, _, moves, final, run, stopped, by rw [if_neg set]; exact ⟨rfl, rfl⟩⟩

end Parallel

end Paths

/-- What the documentation asks of a call, and CUDA calls that succeed. Only the waits of the
launcher are left open. -/
structure RegularCall (env : UvmEnvironment) : Prop where
  calls : ∀ call, env.outcome call = true
  workers : 0 < settings.numWorkers
  size : call.updateSize = config.rowSizeInBytes
  packed : settings.uvmCpuAccumulate → call.updateSize = call.buffer.stride
  whole : ∀ format, trsDataToEC call.updateDtype = some format →
    call.updateSize % elementBytes format = 0
  width : ∀ format, trsDataToEC call.updateDtype = some format →
    wrap32 (rowSize config / elementBytes format) ≠ 0

section Uvm

variable {config settings call} {env : UvmEnvironment}
  (regular : RegularCall config settings call env)
  (known : trsDataToEC call.updateDtype = some format) (nonempty : call.keys ≠ []) (before : Memory)

include regular

theorem RegularCall.whole_rows (known : trsDataToEC call.updateDtype = some format) :
    elementBytes format ∣ rowSize config := by
  have size := regular.size
  have whole := regular.whole format known
  rw [rowSize]
  cases format <;> simp only [elementBytes] at whole ⊢ <;> omega

theorem RegularCall.row_pos (known : trsDataToEC call.updateDtype = some format) :
    0 < rowSize config := by
  by_contra none
  exact regular.width format known (by rw [Nat.eq_zero_of_not_pos none, Nat.zero_div]; rfl)

theorem RegularCall.packed_of_cpu (path : uvmPath settings call.keys.length ≠ .gpu) :
    call.updateSize = call.buffer.stride := by
  apply regular.packed
  by_contra unset
  exact path (if_neg unset)

include known nonempty

variable {ending : Ending} {after : Memory}

theorem uvmEnds_parallel (path : uvmPath settings call.keys.length = .parallel)
    (ends : UvmEnds config settings arithmetic format call env before ending after) :
    ending = if ∀ i < numCopies settings call.keys.length,
      env.eventSynchronize i = true then .returned else .waiting :=
  parallel_ends arithmetic regular.calls before path nonempty regular.workers
    (regular.packed_of_cpu (by simp [path])) (regular.whole format known) ends

theorem uvmEnds_same (same : call.updateDtype = config.valueDtype)
    (ends : UvmEnds config settings arithmetic format call env before ending after) :
    ending = .returned ↔ (uvmPath settings call.keys.length = .parallel →
      ∀ i < numCopies settings call.keys.length, env.eventSynchronize i = true) := by
  cases path : uvmPath settings call.keys.length with
  | gpu =>
    rw [UvmEnds, path] at ends
    simp [ended, prologue_runs regular.calls, gpuSteps, uvmEpilogue, runSteps, GuardedStep.result,
      checked, regular.calls, same,
      regular.width format known] at ends
    simp [ends.1]
  | serial =>
    have packed := regular.packed_of_cpu (by simp [path])
    rw [UvmEnds, path] at ends
    simp [ended, prologue_runs regular.calls, serialSteps, uvmEpilogue, runSteps,
      GuardedStep.result, checked, regular.calls, same,
      packed, ← regular.whole format known] at ends
    simp [ends.1]
  | parallel =>
    have result := uvmEnds_parallel arithmetic format regular known nonempty before path ends
    rw [result]
    split
    · rename_i arrived
      exact ⟨fun _ _ => arrived, fun _ => rfl⟩
    · rename_i missing
      exact ⟨fun equal => absurd equal (by simp), fun arrived => absurd (arrived rfl) missing⟩

theorem uvmEnds_mixed (mixed : call.updateDtype ≠ config.valueDtype)
    (ends : UvmEnds config settings arithmetic format call env before ending after) :
    (uvmPath settings call.keys.length ≠ .parallel → ending = .threw ∧ after = before) ∧
      (uvmPath settings call.keys.length = .parallel → ending ≠ .threw) := by
  cases path : uvmPath settings call.keys.length with
  | gpu | serial =>
    simp only [UvmEnds, path, ended, gpu_rejects arithmetic regular.calls before mixed.symm,
      serial_rejects arithmetic regular.calls before mixed.symm, Bool.false_eq_true,
        if_false] at ends
    exact ⟨fun _ => ends, fun other => absurd other (by simp)⟩
  | parallel =>
    have result := uvmEnds_parallel arithmetic format regular known nonempty before path ends
    refine ⟨fun other => absurd rfl other, fun _ => ?_⟩
    rw [result]
    split <;> simp

theorem uvmEnds_exists :
    ∃ ending after, UvmEnds config settings arithmetic format call env before ending after := by
  cases path : uvmPath settings call.keys.length with
  | gpu | serial =>
    simp only [UvmEnds, path]
    exact ⟨_, _, rfl, rfl⟩
  | parallel =>
    exact parallel_exists arithmetic regular.calls before path nonempty regular.workers
      (regular.packed_of_cpu (by simp [path])) (regular.whole format known)

theorem uvmEnds_rejected (path : uvmPath settings call.keys.length ≠ .parallel)
    (mixed : call.updateDtype ≠ config.valueDtype) :
    UvmEnds config settings arithmetic format call env before .threw before := by
  obtain ⟨ending, after, ends⟩ := uvmEnds_exists arithmetic format regular known nonempty before
  obtain ⟨threw, kept⟩ :=
    (uvmEnds_mixed arithmetic format regular known nonempty before mixed ends).1 path
  exact threw ▸ kept ▸ ends

end Uvm

/-- What the cache needs for its side of a call: tags in order, different real keys, numbers that
fit into the source's 32 bits, and CUDA calls that succeed. -/
structure CacheSide (cacheEnv : Nat → Environment w) (state : CacheState w C) : Prop where
  sized : Sized cfg 0
  width : cfg.embedWidthInBytes = rowSize config
  fits : SizesFit config cfg call.keys call.buffer state
  settled : Settled cfg state
  nodup : call.keys.Nodup
  real : ∀ key ∈ call.keys, RealKey cfg key
  calls : ∀ start call, (cacheEnv start).outcome call = .success

section Main

variable {config settings call cfg} {cacheEnv : Nat → Environment w}
  {env : UvmEnvironment} {before : TableState w C} {cached : CacheState w C}

/-- When a call treats its pair of types as it should. -/
def TypesTreated (config : GPUTableConfig) (settings : UvmSettings) (cfg : CacheConfig w C)
    (call : AccumulateCall w) (env : UvmEnvironment) (before : TableState w C) : Prop :=
  if call.keys = [] then Supported config settings call.updateDtype
  else
    trsDataToEC call.updateDtype = none ∨ trsDataToEC config.valueDtype = none ∨
      settings.disableUvmUpdate ∨
    (call.updateDtype = config.valueDtype ∧ (uvmPath settings call.keys.length = .parallel →
      ∀ i < numCopies settings call.keys.length, env.eventSynchronize i = true)) ∨
    (call.updateDtype ≠ config.valueDtype ∧ uvmPath settings call.keys.length ≠ .parallel ∧
      residents cfg call.keys before.cache = 0)

theorem ends_of_empty (empty : call.keys = []) (ending : Ending) (after : TableState w C) :
    AccumulateEnds config settings cfg arithmetic call cacheEnv env before ending after ↔
      ending = .returned ∧ after = before := by
  simp only [AccumulateEnds, updateAccumulate, empty, List.isEmpty_nil, if_true, true_or]
  cases trsDataToEC call.updateDtype <;> rfl

variable (nonempty : call.keys ≠ []) (size : call.updateSize = config.rowSizeInBytes)
  (unknown : trsDataToEC call.updateDtype = none ∨ trsDataToEC config.valueDtype = none)

include nonempty size unknown in
theorem ends_of_unknown (ending : Ending)
    (after : TableState w C) :
    AccumulateEnds config settings cfg arithmetic call cacheEnv env before ending after ↔
      ending = .threw ∧ after = before := by
  have some : call.keys.isEmpty = false := by simp [nonempty]
  have refused : updateAccumulate config cfg arithmetic cacheEnv call.updateDtype call.keys
      call.updateSize call.buffer
      before.cache = .some (.notImplemented, before.cache) := by
    simp only [updateAccumulate, some, Bool.false_eq_true, if_false, size, ne_eq, not_true_eq_false]
    rcases unknown with update | value
    · rw [update]
    · rw [value]
      cases trsDataToEC call.updateDtype <;> rfl
  simp only [AccumulateEnds, refused]

variable {format : DataTypeFormat}

theorem ends_of_known (nonempty : call.keys ≠ [])
    (known : trsDataToEC call.updateDtype = some format)
    (side : updateAccumulate config cfg arithmetic cacheEnv call.updateDtype call.keys
      call.updateSize call.buffer
      before.cache = some (.success, cached)) (ending : Ending) (after : TableState w C) :
    AccumulateEnds config settings cfg arithmetic call cacheEnv env before ending after ↔
      if settings.disableUvmUpdate then ending = .returned ∧ after = ⟨cached, before.uvm⟩
      else after.cache = cached ∧
        UvmEnds config settings arithmetic format call env before.uvm ending after.uvm := by
  have some : call.keys.isEmpty = false := by simp [nonempty]
  simp only [AccumulateEnds, side, known, some, Bool.false_eq_true, false_or]

theorem uniform_of_ends {ending : Ending} {after : TableState w C}
    (ends : ∀ other state, AccumulateEnds config settings cfg arithmetic call cacheEnv env before
      other state ↔
      other = ending ∧ state = after) :
    Uniform config settings cfg arithmetic call cacheEnv env before ↔
      (¬ Supported config settings call.updateDtype → ending = .threw ∧ after.uvm = before.uvm ∧
        ∀ key, find cfg key after.cache = find cfg key before.cache) ∧
      (Supported config settings call.updateDtype → ending = .returned) := by
  have made := (ends ending after).mpr ⟨rfl, rfl⟩
  constructor
  · intro uniform
    exact ⟨fun other => uniform.rejects other _ _ made, fun supported =>
      uniform.accepts supported _ _ made⟩
  · rintro ⟨rejects, accepts⟩
    constructor
    · intro other ending after ended
      obtain ⟨rfl, rfl⟩ := (ends _ _).mp ended
      exact rejects other
    · intro supported ending after ended
      obtain ⟨rfl, rfl⟩ := (ends _ _).mp ended
      exact accepts supported

theorem uniform_of_empty (empty : call.keys = []) :
    Uniform config settings cfg arithmetic call cacheEnv env before ↔
      Supported config settings call.updateDtype := by
  rw [uniform_of_ends arithmetic (ends_of_empty arithmetic empty)]
  simp only [reduceCtorEq, imp_false, not_not, implies_true, and_true]

include nonempty size unknown in
theorem uniform_of_unknown :
    Uniform config settings cfg arithmetic call cacheEnv env before := by
  rw [uniform_of_ends arithmetic (ends_of_unknown arithmetic nonempty size unknown)]
  refine ⟨fun _ => ⟨rfl, rfl, fun _ => rfl⟩, fun supported => ?_⟩
  obtain ⟨update, value, _⟩ := supported
  rcases unknown with missing | missing <;> simp [missing] at update value

section Ends

variable (regular : RegularCall config settings call env)
  (side : updateAccumulate config cfg arithmetic cacheEnv call.updateDtype call.keys
    call.updateSize call.buffer
    before.cache = some (.success, cached))

include side

theorem uniform_of_disabled (nonempty : call.keys ≠ [])
    (disabled : settings.disableUvmUpdate = true)
    (update : trsDataToEC call.updateDtype = some format)
    (value : trsDataToEC config.valueDtype ≠ none) :
      Uniform config settings cfg arithmetic call cacheEnv env before := by
  have supported : Supported config settings call.updateDtype := by
    simp [Supported, update, disabled, Option.isSome_iff_ne_none, value]
  have ends : ∀ ending after, AccumulateEnds config settings cfg arithmetic call cacheEnv env before
      ending after ↔
      ending = .returned ∧ after = ⟨cached, before.uvm⟩ := by
    intro ending after
    rw [ends_of_known arithmetic nonempty update side, if_pos disabled]
  rw [uniform_of_ends arithmetic ends]
  exact ⟨fun other => absurd supported other, fun _ => rfl⟩

include regular

theorem uniform_of_enabled (nonempty : call.keys ≠ []) (enabled : settings.disableUvmUpdate = false)
    (update : trsDataToEC call.updateDtype = some format)
    (value : trsDataToEC config.valueDtype ≠ none) :
    Uniform config settings cfg arithmetic call cacheEnv env before ↔
      (call.updateDtype = config.valueDtype ∧ (uvmPath settings call.keys.length = .parallel →
        ∀ i < numCopies settings call.keys.length, env.eventSynchronize i = true)) ∨
      (call.updateDtype ≠ config.valueDtype ∧ uvmPath settings call.keys.length ≠ .parallel ∧
        ∀ key, find cfg key cached = find cfg key before.cache) := by
  have ends : ∀ ending after, AccumulateEnds config settings cfg arithmetic call cacheEnv env before
      ending after ↔
      after.cache = cached ∧
        UvmEnds config settings arithmetic format call env before.uvm ending after.uvm := by
    intro ending after
    rw [ends_of_known arithmetic nonempty update side, enabled]
    simp
  have supported : Supported config settings call.updateDtype ↔
      call.updateDtype = config.valueDtype := by
    simp [Supported, update, enabled, Option.isSome_iff_ne_none, value]
  obtain ⟨ending, uvm, some⟩ := uvmEnds_exists arithmetic format regular update nonempty before.uvm
  have made := (ends ending ⟨cached, uvm⟩).mpr ⟨rfl, some⟩
  by_cases same : call.updateDtype = config.valueDtype
  · simp only [same, true_and, ne_eq, not_true_eq_false, false_and, or_false]
    constructor
    · intro uniform
      have returned := uniform.accepts (supported.mpr same) _ _ made
      exact (uvmEnds_same arithmetic format regular update nonempty before.uvm same some).mp
        returned
    · intro arrived
      refine ⟨fun other => absurd (supported.mpr same) other, fun _ ending after made => ?_⟩
      exact (uvmEnds_same arithmetic format regular update nonempty before.uvm same
        ((ends _ _).mp made).2).mpr arrived
  · simp only [same, false_and, ne_eq, not_false_eq_true, true_and, false_or]
    have other : ¬ Supported config settings call.updateDtype := fun holds =>
      same (supported.mp holds)
    constructor
    · intro uniform
      have threw := uniform.rejects other _ _ made
      have mixed := uvmEnds_mixed arithmetic format regular update nonempty before.uvm same some
      exact ⟨fun path => mixed.2 path threw.1, threw.2.2⟩
    · rintro ⟨path, kept⟩
      refine ⟨fun _ ending after made => ?_, fun holds => absurd holds other⟩
      obtain ⟨cache, made⟩ := (ends _ _).mp made
      obtain ⟨threw, uvm⟩ :=
        (uvmEnds_mixed arithmetic format regular update nonempty before.uvm same made).1 path
      exact ⟨threw, uvm, fun key => by rw [cache, kept key]⟩

theorem accumulateEnds_exists (nonempty : call.keys ≠ [])
    (update : trsDataToEC call.updateDtype = some format) :
    ∃ ending after, AccumulateEnds config settings cfg arithmetic call cacheEnv env before
      ending after := by
  obtain ⟨ending, uvm, some⟩ := uvmEnds_exists arithmetic format regular update nonempty before.uvm
  cases disabled : settings.disableUvmUpdate with
  | true =>
    refine ⟨.returned, ⟨cached, before.uvm⟩, ?_⟩
    rw [ends_of_known arithmetic nonempty update side, if_pos disabled]
    exact ⟨rfl, rfl⟩
  | false =>
    refine ⟨ending, ⟨cached, uvm⟩, ?_⟩
    rw [ends_of_known arithmetic nonempty update side, disabled]
    simpa using some

end Ends

section Cache

variable [LinearOrder C] [Zero C] [Add C] [Mul C] {value : DataTypeFormat}
  (regular : RegularCall config settings call env)
  (cache : CacheSide config cfg call cacheEnv before.cache)
  (update : trsDataToEC call.updateDtype = some format)
  (stored : trsDataToEC config.valueDtype = some value)

include regular cache update stored

theorem CacheSide.amends (arithmetic : RowArithmetic) :
    ∃ after, updateAccumulate config cfg arithmetic cacheEnv call.updateDtype call.keys
      call.updateSize
        call.buffer before.cache = some (.success, after) ∧
      Amended cfg call.keys (sumRow cfg arithmetic format call.keys call.buffer)
        before.cache after :=
  updateAccumulate_amends cache.sized arithmetic cache.fits cache.settled cache.nodup
    cache.real cache.calls
    regular.size update stored (cache.width ▸ regular.whole_rows _ update)

/-- The cached rows are as before, whatever the arithmetic, exactly if no listed key is resident. -/
theorem CacheSide.keeps_iff :
    (∀ arithmetic after, updateAccumulate config cfg arithmetic cacheEnv call.updateDtype call.keys
        call.updateSize call.buffer before.cache = some (.success, after) →
      ∀ key, find cfg key after = find cfg key before.cache) ↔
      residents cfg call.keys before.cache = 0 := by
  constructor
  · intro keeps
    by_contra some
    obtain ⟨key, present, resident⟩ := List.countP_pos_iff.mp (Nat.pos_of_ne_zero some)
    obtain ⟨old, found⟩ := Option.isSome_iff_exists.mp resident
    -- an arithmetic whose sums differ from the first byte of the row
    let arithmetic : RowArithmetic := ⟨fun _ _ _ _ => old[0]?.getD 0 + 1, fun _ _ _ _ => 0⟩
    obtain ⟨after, done, amended⟩ := cache.amends regular update stored arithmetic
    have rows := (amended.rows key).symm.trans (keeps arithmetic after done key)
    simp only [if_pos present, found, Option.map_some, Option.some.injEq] at rows
    have wide : 0 < cfg.embedWidthInBytes := cache.width ▸ regular.row_pos _ update
    have first := congrArg (fun row : Row => row[0]?.getD 0) rows
    simp [sumRow, readRange, RowArithmetic.elementSum, arithmetic, wide] at first
  · intro none arithmetic after done key
    obtain ⟨same, again, amended⟩ := cache.amends regular update stored arithmetic
    cases done.symm.trans again
    rw [amended.rows]
    split
    · rename_i present
      have absent := List.countP_eq_zero.mp none key present
      rw [Bool.not_eq_true, Option.isSome_eq_false_iff, Option.isNone_iff_eq_none] at absent
      rw [absent, Option.map_none]
    · rfl

theorem uniform_of_enabled_iff (nonempty : call.keys ≠ [])
    (enabled : settings.disableUvmUpdate = false) :
    (∀ arithmetic, Uniform config settings cfg arithmetic call cacheEnv env before) ↔
      (call.updateDtype = config.valueDtype ∧ (uvmPath settings call.keys.length = .parallel →
        ∀ i < numCopies settings call.keys.length, env.eventSynchronize i = true)) ∨
      (call.updateDtype ≠ config.valueDtype ∧ uvmPath settings call.keys.length ≠ .parallel ∧
        residents cfg call.keys before.cache = 0) := by
  have known : trsDataToEC config.valueDtype ≠ none := by simp [stored]
  have each := fun arithmetic (cached : CacheState w C)
      (done : updateAccumulate config cfg arithmetic cacheEnv call.updateDtype call.keys
        call.updateSize
        call.buffer before.cache = some (.success, cached)) =>
    uniform_of_enabled arithmetic regular done nonempty enabled update known
  obtain ⟨cached, done, _⟩ := cache.amends regular update stored addBytes
  rw [← cache.keeps_iff regular update stored]
  constructor
  · intro uniform
    by_cases same : call.updateDtype = config.valueDtype
    · exact .inl (((each _ _ done).mp (uniform _)).resolve_right fun mixed => mixed.1 same)
    · have mixed := fun arithmetic cached done =>
        ((each arithmetic cached done).mp (uniform arithmetic)).resolve_left fun agree =>
          same agree.1
      exact .inr ⟨same, (mixed _ _ done).2.1, fun arithmetic cached done => (mixed _ _ done).2.2⟩
  · intro treated arithmetic
    obtain ⟨cached, done, _⟩ := cache.amends regular update stored arithmetic
    exact (each _ _ done).mpr
      (treated.imp_right fun mixed => ⟨mixed.1, mixed.2.1, mixed.2.2 arithmetic cached done⟩)

end Cache

end Main

def floatConfig : GPUTableConfig where
  cacheSize := 96
  rowSizeInBytes := 4
  maxModifySize := 4
  valueDtype := .float32
  privateStream := true
  modifyOnGpu := false
  invalidKey := -1

def floatCache : CacheConfig 64 Nat := ⟨1, 1, 4, 1, -1⟩

theorem floatCache_sized : Sized floatCache 0 :=
  ⟨by decide, by decide, by decide, by decide, by decide⟩

def oneWorker (uvmCpuAccumulate : Bool) : UvmSettings := ⟨uvmCpuAccumulate, false, 1⟩

def holdsZero : TableState 64 Nat where
  cache :=
    .host ⟨fun i => if i = 0 then 0 else -1, fun i => if i = 0 then 0 else -1,
      fun _ => 0, fun _ => 0⟩
  uvm := fun _ => 0

def addOnes (updateDtype : DataType) (numKeys : Nat) : AccumulateCall 64 where
  updateDtype := updateDtype
  keys := (List.range numKeys).map (BitVec.ofNat 64)
  updateSize := 4
  buffer := ⟨fun _ => 1, 4⟩

def copies (arrive : Bool) : UvmEnvironment := ⟨fun _ => true, fun _ => arrive⟩

theorem addOnes_regular (cpu : Bool) (updateDtype : DataType) (numKeys : Nat) (arrive : Bool) :
    RegularCall floatConfig (oneWorker cpu) (addOnes updateDtype numKeys) (copies arrive) where
  calls := fun _ => rfl
  workers := Nat.one_pos
  size := rfl
  packed := fun _ => rfl
  whole := by
    intro format _
    cases format <;> rfl
  width := by
    intro format _
    cases format <;> decide

def withOnes (updateDtype : DataType) (format : DataTypeFormat) (numKeys : Nat) :
    CacheState 64 Nat :=
  accumulateNoSync floatCache addBytes format .fp32 (addOnes updateDtype numKeys).keys
    (addOnes updateDtype numKeys).buffer
    holdsZero.cache

section Examples

variable {updateDtype : DataType} {format : DataTypeFormat} {numKeys : Nat} (positive : 0 < numKeys)
  (known : trsDataToEC updateDtype = some format)

include positive known

theorem addOnes_side :
    updateAccumulate floatConfig floatCache addBytes (fun _ => quietEnvironment) updateDtype
    (addOnes updateDtype numKeys).keys 4 (addOnes updateDtype numKeys).buffer holdsZero.cache =
      some (.success, withOnes updateDtype format numKeys) := by
  have nonempty : (addOnes updateDtype numKeys).keys.isEmpty =
      false := by simp [addOnes, Nat.ne_of_gt positive]
  have accepted : accumulateRefusal format = none := by
    cases updateDtype <;> simp only [trsDataToEC, Option.some.injEq, reduceCtorEq] at known <;>
      subst known <;> rfl
  have value : trsDataToEC floatConfig.valueDtype = some .fp32 := rfl
  simp only [updateAccumulate, nonempty, known, value, accepted]
  rfl

theorem addOnes_ends {cpu arrive : Bool} {ending : Ending} {uvm : Memory} :
    AccumulateEnds floatConfig (oneWorker cpu) floatCache addBytes (addOnes updateDtype numKeys)
      (fun _ => quietEnvironment) (copies arrive)
        holdsZero ending ⟨withOnes updateDtype format numKeys, uvm⟩ ↔
      UvmEnds floatConfig (oneWorker cpu) addBytes format (addOnes updateDtype numKeys)
        (copies arrive) holdsZero.uvm
        ending uvm := by
  have nonempty :
      (addOnes updateDtype numKeys).keys ≠ [] := by simp [addOnes, Nat.ne_of_gt positive]
  rw [ends_of_known addBytes nonempty known (addOnes_side positive known),
    if_neg (by simp [oneWorker])]
  exact ⟨fun both => both.2, fun ends => ⟨rfl, ends⟩⟩

theorem addOnes_rejected {cpu : Bool} (path : uvmPath (oneWorker cpu) numKeys ≠ .parallel)
    (mixed : updateDtype ≠ floatConfig.valueDtype) :
    AccumulateEnds floatConfig (oneWorker cpu) floatCache addBytes (addOnes updateDtype numKeys)
      (fun _ => quietEnvironment) (copies true)
      holdsZero .threw ⟨withOnes updateDtype format numKeys, holdsZero.uvm⟩ := by
  have length : (addOnes updateDtype numKeys).keys.length = numKeys := by simp [addOnes]
  have nonempty :
      (addOnes updateDtype numKeys).keys ≠ [] := by simp [addOnes, Nat.ne_of_gt positive]
  rw [addOnes_ends positive known]
  exact uvmEnds_rejected addBytes format (addOnes_regular cpu updateDtype numKeys true) known
    nonempty holdsZero.uvm
    (by rw [length]; exact path) mixed

theorem addOnes_parallel (path : uvmPath (oneWorker true) numKeys = .parallel) (arrive : Bool) :
    ∃ after, AccumulateEnds floatConfig (oneWorker true) floatCache addBytes
      (addOnes updateDtype numKeys) (fun _ => quietEnvironment)
      (copies arrive) holdsZero (if arrive then .returned else .waiting) after := by
  have length : (addOnes updateDtype numKeys).keys.length = numKeys := by simp [addOnes]
  have nonempty :
      (addOnes updateDtype numKeys).keys ≠ [] := by simp [addOnes, Nat.ne_of_gt positive]
  have waits : (∀ i < numCopies (oneWorker true) (addOnes updateDtype numKeys).keys.length,
      (copies arrive).eventSynchronize i = true) ↔ arrive = true := by
    have some : 0 < numCopies (oneWorker true) (addOnes updateDtype numKeys).keys.length := by
      rw [length]
      exact Nat.div_pos (by simp only [oneWorker, keysPerTask]; omega) (by decide)
    exact ⟨fun all => all 0 some, fun arrived _ _ => arrived⟩
  have regular := addOnes_regular true updateDtype numKeys arrive
  obtain ⟨ending, uvm, ends⟩ := uvmEnds_exists addBytes format regular known nonempty holdsZero.uvm
  have result := uvmEnds_parallel addBytes format regular known nonempty holdsZero.uvm
    (by rw [length]; exact path) ends
  simp only [waits] at result
  rw [result] at ends
  exact ⟨_, (addOnes_ends positive known).mpr ends⟩

end Examples

theorem zero_cacheSide :
    CacheSide floatConfig floatCache (addOnes .float32 256) (fun _ => quietEnvironment)
    holdsZero.cache where
  sized := floatCache_sized
  width := rfl
  fits := ⟨by decide, by decide, by simp [addOnes], trivial⟩
  settled := settled_of_first floatCache_sized rfl rfl (by decide) rfl rfl
  nodup := by
    refine List.Nodup.map_on (fun one isOne two isTwo same => ?_) List.nodup_range
    rw [List.mem_range] at isOne isTwo
    have numbers := congrArg BitVec.toNat same
    simp only [BitVec.toNat_ofNat] at numbers
    omega
  real := by
    intro key present
    obtain ⟨n, inside, rfl⟩ := List.mem_map.mp present
    apply RealKey.of_nonNegative floatCache_sized rfl
    rw [List.mem_range] at inside
    rw [NonNegative, BitVec.toInt_eq_toNat_of_lt (by simp only [BitVec.toNat_ofNat]; omega)]
    exact Int.natCast_nonneg _
  calls := fun _ _ => rfl

end GpuTable

end EmbedCache
