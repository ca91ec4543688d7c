import EmbedCache.ModifyList
import EmbedCache.Lib.Throwing

/-! The two flows that hold the custom-flow lock while they queue their kernels.

`custom_flow_lock_` is one `std::shared_lock` of the cache. It is taken and given up by
hand, so a call that fails in between leaves it as it is. -/

namespace EmbedCache

open Lib List
open Throwing (bind_of_error bind_of_ok forEach require)

/-- How a function is left other than by return. Nothing is left by undefined behaviour. -/
inductive Thrown
  | ecException (error : ECError)
  | runtimeError
  | systemError
  | undefined
  deriving DecidableEq

/-- The state is whether `custom_flow_lock_` owns its mutex. -/
abbrev FlowCode := Throwing Bool Thrown

/-- `std::shared_lock::lock` throws when the lock is owned already. -/
def startCustomFlow : FlowCode ECError := fun owned =>
    if owned then (.error .systemError, owned) else (.ok .success, true)

/-- `std::shared_lock::unlock` throws when there is nothing to unlock. -/
def endCustomFlow : FlowCode ECError := fun owned =>
    if owned then (.ok .success, false) else (.error .systemError, owned)

def checkErrAndThrow (call : FlowCode ECError) : FlowCode Unit := do
  let error ← call
  .require (error = .success) (.ecException error)

/-! ### `lookup_sort_gather` -/

/-- The calls that may fail. The size is asked for once to compare it and once to use it. -/
inductive SortGatherCall
  | requiredSize
  | auxSize
  | find
  | sort
  | gather

structure SortGather where
  keySize : BitVec 64
  len : BitVec 64
  blockSize : BitVec 64
  buffer : Bool
  bufferBytes : BitVec 64
  cubAuxBytes : BitVec 64
  succeeds : SortGatherCall → Bool

namespace SortGather

variable (call : SortGather)

def requiredBytes : BitVec 64 :=
  call.cubAuxBytes + 16 * call.len + call.keySize * call.len + 16 * call.len +
    call.keySize * call.len

/-- `num_keys_per_block_gather`, by which the number of keys is divided. -/
def keysPerBlock : BitVec 32 := call.blockSize.setWidth 32 * 4

/-- `call_sort_gather`: whether it returns `cudaSuccess`. -/
def callSortGather (size : SortGatherCall) (buffer : Bool) : FlowCode Bool :=
  if !call.succeeds size then pure false
  else if !buffer then pure true
  else if !call.succeeds .find then pure false
  else if !call.succeeds .sort then pure false
  else if call.keysPerBlock = 0 then .throw .undefined
  else pure (call.succeeds .gather)

def gatherOrThrow (size : SortGatherCall) (buffer : Bool) : FlowCode Unit := do
  let success ← call.callSortGather size buffer
  .require success (.ecException .cudaError)

def guarded : FlowCode Unit := do
  checkErrAndThrow startCustomFlow
  call.gatherOrThrow .auxSize true
  checkErrAndThrow endCustomFlow

/-- The body of the `try`; the result is `auxiliary_buffer_bytes` at the end. -/
def body : FlowCode (BitVec 64) := do
  call.gatherOrThrow .requiredSize false
  if !call.buffer then pure call.requiredBytes
  else if call.bufferBytes < call.requiredBytes then .throw (.ecException .invalidArgument)
  else if call.len = 0 then pure call.bufferBytes
  else do
    call.guarded
    pure call.bufferBytes

/-- Only an `ECException` becomes a return code. -/
def lookupSortGather : FlowCode (ECError × BitVec 64) := fun owned =>
  match call.body owned with
  | (.ok bytes, after) => (.ok (.success, bytes), after)
  | (.error (.ecException error), after) => (.ok (error, call.bufferBytes), after)
  | (.error thrown, after) => (.error thrown, after)

end SortGather

/-! ### `gather_flow_pipeline` -/

inductive PipelineCall
  | auxStreams
  | auxSize
  | buffer (i : Fin 7)
  | eventCreate (i : Fin 4)
  | find
  | copyMisses
  | recordMisses
  | sort
  | recordSort
  | awaitMisses
  | copyOutput
  | recordOutput
  | waitSort
  | gather
  | recordGather
  | waitGather
  | cpuGather
  | eventDestroy (i : Fin 4)

/-- The difference of the two miss counts is what the device says it is; the first copy of the count
is not checked. -/
structure Pipeline where
  n : BitVec 64
  misses : BitVec 64
  succeeds : PipelineCall → Bool

namespace Pipeline

variable (call : Pipeline)

/-- Calls one after another; the first that fails throws. -/
def check (calls : List PipelineCall) : FlowCode Unit :=
  .forEach (fun _ one => .require (call.succeeds one) .runtimeError) 0 calls

def setup : List PipelineCall :=
  [.auxStreams, .auxSize] ++ (List.finRange 7).map .buffer ++ (List.finRange 4).map .eventCreate

/-- The calls between `start_custom_flow` and `end_custom_flow`. -/
def queued : List PipelineCall :=
  [.find, .copyMisses, .recordMisses, .sort, .recordSort, .awaitMisses, .copyOutput,
    .recordOutput] ++
    if call.n - call.misses ≠ 0 then [.waitSort, .gather, .recordGather, .waitGather] else []

def rest : List PipelineCall :=
  (if call.misses ≠ 0 then [.cpuGather] else []) ++ (List.finRange 4).map .eventDestroy

/-- The codes of `start_custom_flow` and `end_custom_flow` are not looked at. -/
def gatherFlowPipeline : FlowCode Unit := do
  call.check setup
  let _ ← startCustomFlow
  call.check call.queued
  let _ ← endCustomFlow
  call.check call.rest

end Pipeline

/-! ### Exits -/

inductive CustomFlow
  | sortGather (call : SortGather)
  | pipeline (call : Pipeline)

namespace CustomFlow

/-- How the flow is left, and the lock afterwards. -/
def leave : CustomFlow → Bool → Option Thrown × Bool
  | .sortGather call, owned => match call.lookupSortGather owned with
    | (.ok _, after) => (none, after)
    | (.error thrown, after) => (some thrown, after)
  | .pipeline call, owned => match call.gatherFlowPipeline owned with
    | (.ok _, after) => (none, after)
    | (.error thrown, after) => (some thrown, after)

/-- On an exit the lock is as it was at entry. -/
def Closes (flow : CustomFlow) (owned : Bool) : Prop :=
  (flow.leave owned).1 ≠ some .undefined → (flow.leave owned).2 = owned

/-- The flow gets to `start_custom_flow`. -/
def Enters : CustomFlow → Prop
  | .sortGather call => call.succeeds .requiredSize = true ∧ call.buffer = true ∧
      call.requiredBytes ≤ call.bufferBytes ∧ call.len ≠ 0
  | .pipeline call => ∀ one ∈ Pipeline.setup, call.succeeds one = true

/-- No call fails while the lock is held. -/
def Undisturbed : CustomFlow → Prop
  | .sortGather call => call.succeeds .auxSize = true ∧ call.succeeds .find = true ∧
    call.succeeds .sort = true ∧
      (call.keysPerBlock ≠ 0 → call.succeeds .gather = true)
  | .pipeline call => ∀ one ∈ call.queued, call.succeeds one = true

end CustomFlow

namespace Pipeline

variable {call : Pipeline} {calls : List PipelineCall}

theorem check_eq (owned : Bool) : call.check calls owned =
    (if ∀ one ∈ calls, call.succeeds one = true then .ok () else .error .runtimeError, owned) := by
  have general :
      ∀ index, forEach (fun _ one => .require (call.succeeds one) .runtimeError) index calls owned =
      ((if ∀ one ∈ calls, call.succeeds one = true then .ok () else .error .runtimeError,
        owned) : Except Thrown Unit × Bool) := by
    induction calls with
    | nil =>
      intro index
      rw [if_pos nofun]
      rfl
    | cons one others ih =>
      intro index
      simp only [forall_mem_cons]
      cases success : call.succeeds one with
      | true =>
        have first : require (call.succeeds one) Thrown.runtimeError owned = (.ok (), owned) := by
          rw [success]
          rfl
        simp only [true_and]
        exact (bind_of_ok first).trans (ih (index + 1))
      | false =>
        have first : require (call.succeeds one) Thrown.runtimeError owned =
            (.error .runtimeError, owned) := by
          rw [success]
          rfl
        rw [if_neg fun all => Bool.false_ne_true all.1]
        exact bind_of_error first
  exact general 0

theorem check_ok (all : ∀ one ∈ calls, call.succeeds one = true) (owned : Bool) :
    call.check calls owned = (.ok (), owned) := by
  rw [check_eq, if_pos all]

theorem check_error (some : ¬ ∀ one ∈ calls, call.succeeds one = true) (owned : Bool) :
    call.check calls owned = (.error .runtimeError, owned) := by
  rw [check_eq, if_neg some]

variable (call)

/-- The flow is left with the lock exactly if it was held before, or if a call failed behind
`start_custom_flow`. -/
theorem leave_eq (owned : Bool) : ∃ thrown, thrown ≠ some .undefined ∧
    (CustomFlow.pipeline call).leave owned = (thrown,
    owned || decide ((∀ one ∈ setup, call.succeeds one = true) ∧
      ¬ ∀ one ∈ call.queued, call.succeeds one = true)) := by
  by_cases entered : ∀ one ∈ setup, call.succeeds one = true
  · cases owned with
    | true =>
      have run : call.gatherFlowPipeline true = (.error .systemError, true) := by
        rw [gatherFlowPipeline, bind_of_ok (check_ok entered true)]
        rfl
      exact ⟨some .systemError, by decide, by simp [CustomFlow.leave, run]⟩
    | false =>
      have started : startCustomFlow false = (.ok .success, true) := rfl
      by_cases done : ∀ one ∈ call.queued, call.succeeds one = true
      · have closed : endCustomFlow true = (.ok .success, false) := rfl
        have run : call.gatherFlowPipeline false = call.check call.rest false := by
          rw [gatherFlowPipeline, bind_of_ok (check_ok entered false), bind_of_ok started,
            bind_of_ok (check_ok done true), bind_of_ok closed]
        rw [decide_eq_false fun failed => failed.2 done]
        by_cases ended : ∀ one ∈ call.rest, call.succeeds one = true
        · rw [check_ok ended] at run
          exact ⟨none, by decide, by simp [CustomFlow.leave, run]⟩
        · rw [check_error ended] at run
          exact ⟨some .runtimeError, by decide, by simp [CustomFlow.leave, run]⟩
      · have run : call.gatherFlowPipeline false = (.error .runtimeError, true) := by
          rw [gatherFlowPipeline, bind_of_ok (check_ok entered false), bind_of_ok started,
            bind_of_error (check_error done true)]
        refine ⟨some .runtimeError, by decide, ?_⟩
        rw [CustomFlow.leave, run, decide_eq_true ⟨entered, done⟩]
        rfl
  · have run : call.gatherFlowPipeline owned = (.error .runtimeError, owned) :=
      bind_of_error (check_error entered owned)
    exact ⟨some .runtimeError, by decide, by simp [CustomFlow.leave, run, entered]⟩

end Pipeline

namespace SortGather

variable (call : SortGather)

/-- How `call_sort_gather` ends with a buffer: by its result, or in a division by zero. -/
theorem gatherOrThrow_eq (owned : Bool) : call.gatherOrThrow .auxSize true owned =
    (if call.succeeds .auxSize ∧ call.succeeds .find ∧ call.succeeds .sort then
      if call.keysPerBlock = 0 then .error .undefined
      else if call.succeeds .gather then .ok () else .error (.ecException .cudaError)
    else .error (.ecException .cudaError), owned) := by
  rw [gatherOrThrow, callSortGather]
  cases call.succeeds .auxSize <;> cases call.succeeds .find <;> cases call.succeeds
    .sort <;> try rfl
  by_cases zero : call.keysPerBlock = 0
  · simp only [zero]
    rfl
  · simp only [zero]
    cases call.succeeds .gather <;> rfl

theorem required_eq (owned : Bool) : call.gatherOrThrow .requiredSize false owned =
    (if call.succeeds .requiredSize then .ok () else .error (.ecException .cudaError), owned) := by
  rw [gatherOrThrow, callSortGather]
  cases call.succeeds .requiredSize <;> rfl

theorem guarded_owned : call.guarded true = (.error .systemError, true) := rfl

theorem guarded_free : call.guarded false =
    match (call.gatherOrThrow .auxSize true true).1 with
    | .ok _ => (.ok (), false)
    | .error thrown => (.error thrown, true) := by
  have started : checkErrAndThrow startCustomFlow false = (.ok (), true) := rfl
  rw [guarded, bind_of_ok started]
  have run := call.gatherOrThrow_eq true
  cases outcome : (call.gatherOrThrow .auxSize true true).1 with
  | ok value =>
    rw [run] at outcome
    rw [bind_of_ok (run.trans (Prod.ext outcome rfl))]
    rfl
  | error thrown =>
    rw [run] at outcome
    rw [bind_of_error (run.trans (Prod.ext outcome rfl))]

theorem body_outside (outside : ¬ (CustomFlow.sortGather call).Enters) (owned : Bool) :
    (call.body owned).2 = owned := by
  have run := call.required_eq owned
  cases size : call.succeeds .requiredSize with
  | false =>
    rw [size] at run
    rw [body, bind_of_error run]
  | true =>
    rw [size] at run
    rw [body, bind_of_ok run]
    split_ifs with absent short none
    · rfl
    · rfl
    · rfl
    · exact absurd ⟨size, by simpa using absent, BitVec.not_lt.mp short, none⟩ outside

/-- Neither the handler nor the return touches the lock. -/
theorem leave_body (owned : Bool) :
    ((CustomFlow.sortGather call).leave owned).2 = (call.body owned).2 := by
  rw [CustomFlow.leave, lookupSortGather]
  rcases call.body owned with ⟨thrown | bytes, after⟩
  · cases thrown <;> rfl
  · rfl

theorem body_entered (enters : (CustomFlow.sortGather call).Enters) (owned : Bool) :
    call.body owned = (call.guarded >>= fun _ => pure call.bufferBytes) owned := by
  obtain ⟨size, buffer, room, some⟩ := enters
  have run := call.required_eq owned
  rw [size] at run
  rw [body, bind_of_ok run, buffer, if_neg (by decide), if_neg (BitVec.not_lt.mpr room),
    if_neg some]

theorem closes_iff (owned : Bool) : (CustomFlow.sortGather call).Closes owned ↔
    owned = true ∨ ¬ (CustomFlow.sortGather call).Enters ∨
      (CustomFlow.sortGather call).Undisturbed := by
  by_cases enters : (CustomFlow.sortGather call).Enters
  · have entered := call.body_entered enters owned
    cases owned with
    | true =>
      rw [bind_of_error call.guarded_owned] at entered
      simp [CustomFlow.Closes, CustomFlow.leave, lookupSortGather, entered]
    | false =>
      have free := call.guarded_free
      rw [gatherOrThrow_eq] at free
      simp only [CustomFlow.Closes, CustomFlow.leave, lookupSortGather, CustomFlow.Undisturbed,
        enters, not_true_eq_false,
        false_or, Bool.false_eq_true]
      by_cases queued : call.succeeds .auxSize ∧ call.succeeds .find ∧ call.succeeds .sort
      · rw [if_pos queued] at free
        by_cases zero : call.keysPerBlock = 0
        · rw [if_pos zero] at free
          rw [bind_of_error free] at entered
          simp [entered, queued, zero]
        · cases gather : call.succeeds .gather with
          | true =>
            rw [if_neg zero, gather] at free
            rw [bind_of_ok free] at entered
            simp [entered, queued, pure]
          | false =>
            rw [if_neg zero, gather] at free
            rw [bind_of_error free] at entered
            simp only [entered, ne_eq, reduceCtorEq, not_false_eq_true, Bool.true_eq_false,
              forall_const, false_iff]
            exact fun all => all.2.2.2 zero
      · rw [if_neg queued] at free
        rw [bind_of_error free] at entered
        simp only [entered, ne_eq, reduceCtorEq, not_false_eq_true, Bool.true_eq_false,
          forall_const, false_iff]
        exact fun all => queued ⟨all.1, all.2.1, all.2.2.1⟩
  · simp [CustomFlow.Closes, leave_body, call.body_outside enters, enters]

end SortGather

namespace CustomFlow

theorem pipeline_closes_iff (call : Pipeline) (owned : Bool) : (pipeline call).Closes owned ↔
    owned = true ∨ ¬ (pipeline call).Enters ∨ (pipeline call).Undisturbed := by
  obtain ⟨thrown, exit, left⟩ := call.leave_eq owned
  rw [Closes, left]
  cases owned with
  | true => simp
  | false => simp [exit, Enters, Undisturbed, imp_iff_not_or]

/-- A flow leaves the lock as it was exactly if it was held before, or is not taken, or nothing
fails while it is held. -/
theorem custom_flow_closes_iff (flow : CustomFlow) (owned : Bool) :
    flow.Closes owned ↔ owned = true ∨ ¬ flow.Enters ∨ flow.Undisturbed := by
  cases flow with
  | sortGather call => exact call.closes_iff owned
  | pipeline call => exact pipeline_closes_iff call owned

/-- The launch of `find` fails: one flow returns an error code and the other throws, both with the
lock. -/
theorem find_fails_lock_held :
    (sortGather ⟨8, 1, 1, true, 48, 0, fun call =>
      match call with | .find => false | _ => true⟩).leave false = (none, true) ∧
      (pipeline ⟨1, 0, fun call => match call with | .find => false | _ => true⟩).leave false =
        (some .runtimeError, true) := by
  decide

end CustomFlow

end EmbedCache
