import EmbedCache.DeviceLists
import EmbedCache.DeviceMap
import EmbedCache.HostLists

/-! The jobs that the modify operations hand to the commit protocol.

Every operation of both classes builds a list from the tags and leaves the rest to
kernels that walk the list: hide the tags, write the rows, publish the tags. A job
is that list with what the kernels need, together with the row the call means each
key to have. It is sound when the list names each slot once, under a key that
belongs there, and the row kernel gives every named slot the row that was meant. -/

namespace EmbedCache

open Lib

variable {w : Nat} {C : Type*}

inductive RowStep
  | copy
  | accumulate (updateFormat cacheFormat : DataTypeFormat)

def RowStep.result (arithmetic : RowArithmetic) (width : Nat) :
    RowStep → (Nat → UInt8) → (Nat → UInt8) → Nat → UInt8
  | .copy => fun _ src => src
  | .accumulate updateFormat cacheFormat => arithmetic.rowSum updateFormat cacheFormat width

/-- The step changes no byte behind its row. -/
def RowStep.Whole (width : Nat) : RowStep → Prop
  | .copy => True
  | .accumulate updateFormat _ => WholeElements updateFormat width

structure ModifyJob (w : Nat) (C : Type*) where
  table : Nat
  entries : List (ModifyEntry w)
  /-- The number of entries the kernels are launched for. -/
  launched : Nat
  rows : RowStep
  refusal : Option ECError
  /-- The row meant for a key, from the row it replaces. -/
  given : BitVec w → (Nat → UInt8) → Nat → UInt8
  /-- The tags that the operation leaves once they are published. -/
  tags : Tags w
  counters : Nat → C

namespace ModifyJob

variable (cfg : CacheConfig w C) (arithmetic : RowArithmetic) (job : ModifyJob w C)

def conceal (tags : Tags w) : Tags w :=
  callTagInvalidateKernel job.entries job.launched (tableBase cfg job.table) cfg.sentinelKey tags

def write (memory : Memory) : Memory :=
  match job.rows with
  | .copy => callMemUpdateKernel job.entries job.launched (wrap32 cfg.embedWidthInBytes) memory
  | .accumulate updateFormat cacheFormat =>
    callMemUpdateAccumulateKernel arithmetic updateFormat cacheFormat job.entries job.launched
      (wrap32 cfg.embedWidthInBytes) memory

def publish (tags : Tags w) : Tags w :=
  callTagUpdateKernel job.entries job.launched (tableBase cfg job.table) tags

def slots : Set Nat := {i | ∃ entry ∈ job.entries, entry.slot (tableBase cfg job.table) = i}

def Stores (a : Nat) : Prop :=
  ∃ entry ∈ job.entries, entry.dst ≤ a ∧ a < entry.dst + wrap32 cfg.embedWidthInBytes

end ModifyJob

inductive CommitCall (w : Nat) (C : Type*)
  | insert (maxUpdateSz : Nat) (items : List (InsertItem w C))
  | update (maxUpdateSz : Nat) (keys : List (BitVec w)) (buffer : RowBuffer)
  | updateAccumulate (maxUpdateSz : Nat) (updateFormat cacheFormat : DataTypeFormat)
    (keys : List (BitVec w))
      (buffer : RowBuffer)

def CommitCall.keys : CommitCall w C → List (BitVec w)
  | .insert _ items => items.map InsertItem.key
  | .update _ keys _ => keys
  | .updateAccumulate _ _ _ keys _ => keys

structure CommitRequest (w : Nat) (C : Type*) where
  call : CommitCall w C
  table : Nat
  mapOrder : CacheSAHostModify.MapOrder w
  atomicOrder : AtomicOrder w

def itemRow (items : List (InsertItem w C)) (key : BitVec w) : Nat → UInt8 :=
  match items.find? fun item => item.key = key with
  | some item => item.data
  | none => fun _ => 0

def CommitCall.given (arithmetic : RowArithmetic) (width : Nat) :
    CommitCall w C → BitVec w → (Nat → UInt8) → Nat → UInt8
  | .insert _ items => fun key _ => itemRow items key
  | .update _ keys buffer => fun key _ => buffer.row (keys.idxOf key)
  | .updateAccumulate _ updateFormat cacheFormat keys buffer => fun key old =>
    arithmetic.rowSum updateFormat cacheFormat width old (buffer.row (keys.idxOf key))

def CommitCall.rows : CommitCall w C → RowStep
  | .insert _ _ => .copy
  | .update _ _ _ => .copy
  | .updateAccumulate _ updateFormat cacheFormat _ _ => .accumulate updateFormat cacheFormat

section Jobs

variable [LinearOrder C] [Zero C] [Add C] [Mul C] (cfg : CacheConfig w C)
  (arithmetic : RowArithmetic)
  (request : CommitRequest w C) (tags : Tags w) (counters : Nat → C)

def CacheSAHostModify.listed : List (ModifyEntry w) × Tags w × (Nat → C) :=
  match request.call with
  | .insert maxUpdateSz items =>
    let scan :=
      insertScan cfg request.table maxUpdateSz items
        ⟨tags, decayCounters cfg request.table counters, []⟩
    ((request.mapOrder.iterate scan.insertMap).map Prod.snd, scan.tags, scan.counters)
  | .update maxUpdateSz keys buffer | .updateAccumulate maxUpdateSz _ _ keys buffer =>
    (searchTagStorageForUpdate cfg request.table maxUpdateSz tags buffer 0 keys [], tags, counters)

def CacheSAHostModify.refusal : CommitCall w C → Option ECError
  | .updateAccumulate _ updateFormat cacheFormat _ _ =>
    if updateFormat = .int8Scaled then accumulateQuantizedRefusal updateFormat cacheFormat
    else accumulateRefusal updateFormat
  | _ => none

def CacheSAHostModify.job : ModifyJob w C :=
  let listed := listed cfg request tags counters
  { table := request.table
    entries := listed.1
    launched := listed.1.length
    rows := request.call.rows
    refusal := refusal request.call
    given := request.call.given arithmetic cfg.embedWidthInBytes
    tags := listed.2.1
    counters := listed.2.2 }

/-- List and new counters of a call on the device; `none` where kernels leave their buffers. -/
def CacheSADeviceModify.listed : Option (List (ModifyEntry w) × (Nat → C)) :=
  match request.call with
  | .insert maxUpdateSz items =>
    let data := computeSetReplaceData cfg request.table items tags counters
    if maxUpdateSz < items.length then none
    else some (recorded request.atomicOrder maxUpdateSz data.1, data.2)
  | .update maxUpdateSz keys buffer | .updateAccumulate maxUpdateSz _ _ keys buffer =>
    let entries := computeSetUpdateData cfg request.table keys buffer tags
    if overrun maxUpdateSz keys.length entries then none
    else some (recorded request.atomicOrder maxUpdateSz entries, counters)

def CacheSADeviceModify.refusal (call : CommitCall w C) : Option ECError :=
  (launchRefusal call.keys.length).or
    (match call with
     | .updateAccumulate _ updateFormat cacheFormat _ _ =>
       if contextInputType = .int8Scaled then accumulateQuantizedRefusal updateFormat cacheFormat
       else accumulateRefusal updateFormat
     | _ => none)

def CacheSADeviceModify.job : Option (ModifyJob w C) :=
  (listed cfg request tags counters).map fun listed =>
    { table := request.table
      entries := listed.1
      launched := request.call.keys.length
      rows := request.call.rows
      refusal := refusal request.call
      given := request.call.given arithmetic cfg.embedWidthInBytes
      tags := tagUpdateKernel listed.1 (tableBase cfg request.table) tags
      counters := listed.2 }

end Jobs

/-! ### Jobs and operations

Run without interference, the kernels of a job are the operation. -/

section Perform

variable [LinearOrder C] [Zero C] [Add C] [Mul C] (cfg : CacheConfig w C)
  (arithmetic : RowArithmetic)
  (request : CommitRequest w C) (outcome : Outcome)

namespace CacheSAHostModify

def performCommit (state : HostState w C) : ECError × HostState w C :=
  match request.call with
  | .insert maxUpdateSz items =>
    insert cfg arithmetic request.mapOrder outcome request.table maxUpdateSz items state
  | .update maxUpdateSz keys buffer =>
    update cfg arithmetic outcome request.table maxUpdateSz keys buffer state
  | .updateAccumulate maxUpdateSz updateFormat cacheFormat keys buffer =>
    updateAccumulate cfg arithmetic outcome request.table maxUpdateSz updateFormat cacheFormat keys
      buffer state

omit [Zero C] in
theorem performCommit_eq_job {state after : HostState w C}
    (result : performCommit cfg arithmetic request outcome state = (.success, after)) :
    let made := job cfg arithmetic request state.hTags state.hCounters
    after =
      { hTags := made.tags
        dTags := made.publish cfg (made.conceal cfg state.dTags)
        hCounters := made.counters
        cache := made.write cfg arithmetic state.cache } := by
  cases call : request.call with
  | insert | update | updateAccumulate =>
    simp only [performCommit, call] at result
    refine (modify_kernels result (by simp)).trans ?_
    simp only [job, listed, call, ModifyJob.publish, ModifyJob.conceal, ModifyJob.write,
      CommitCall.rows,
      memUpdateStep]

end CacheSAHostModify

namespace CacheSADeviceModify

def performCommit (state : DeviceState w C) : Option (ECError × DeviceState w C) :=
  match request.call with
  | .insert maxUpdateSz items =>
    insert cfg request.atomicOrder outcome request.table maxUpdateSz items state
  | .update maxUpdateSz keys buffer =>
    update cfg request.atomicOrder outcome request.table maxUpdateSz keys buffer state
  | .updateAccumulate maxUpdateSz updateFormat cacheFormat keys buffer =>
    updateAccumulate cfg arithmetic request.atomicOrder outcome request.table maxUpdateSz
      updateFormat cacheFormat
      keys buffer state

/-- The calls of `invalidate_tags_and_sync` all succeed. -/
def SyncSucceeds (outcome : Outcome) : Prop :=
  outcome .invalidateTags = .success ∧ outcome .streamSynchronize = .success ∧
    outcome .eventRecord = .success ∧ outcome .eventWaitStream = .success

omit [LinearOrder C] [Zero C] [Add C] [Mul C] in
theorem runModify_kernels {prepare commit : List (DeviceStep w C)} {table numKeys : Nat}
    {entries : List (ModifyEntry w)}
    {state after : DeviceState w C} (sync : SyncSucceeds outcome)
    (result : runModify outcome prepare (invalidateTagsAndSync cfg table numKeys entries) commit
      state = (.success, after)) :
    after = applySteps (prepare ++ invalidateTagsAndSync cfg table numKeys entries ++ commit)
      state := by
  have synced : performed .success outcome (invalidateTagsAndSync cfg table numKeys entries) =
      invalidateTagsAndSync cfg table numKeys entries := by
    simp [performed, invalidateTagsAndSync, GuardedStep.result, sync.1, sync.2.1,
      sync.2.2.1, sync.2.2.2]
  rw [runModify_success result, synced]
  simp only [applySteps, List.foldl_append]

theorem performCommit_eq_job (state after : DeviceState w C) (sync : SyncSucceeds outcome)
    (result : performCommit cfg arithmetic request outcome state = some (.success, after)) :
    ∃ job, CacheSADeviceModify.job cfg arithmetic request state.dTags state.dCounters = some job ∧
      after =
        { dTags := job.publish cfg (job.conceal cfg state.dTags)
          dCounters := job.counters
          cache := job.write cfg arithmetic state.cache } := by
  cases call : request.call with
  | insert | update | updateAccumulate =>
    simp only [performCommit, call, insert, update, updateAccumulate] at result
    split at result
    · exact absurd result (by simp)
    · rename_i fits
      have kernels := runModify_kernels cfg outcome sync (Option.some.inj result)
      refine ⟨_, by simp only [job, listed, call, if_neg fits, Option.map_some]; rfl, ?_⟩
      refine kernels.trans ?_
      simp [insertPrepare, updatePrepare, invalidateTagsAndSync, memUpdateStep, accumulateStep,
        tagUpdateStep,
        ModifyJob.publish, ModifyJob.conceal, ModifyJob.write, CommitCall.rows, CommitCall.keys]

end CacheSADeviceModify

end Perform

end EmbedCache
