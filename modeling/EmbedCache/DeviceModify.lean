import EmbedCache.DeviceKernels
import EmbedCache.HostModify

/-! `CacheSADeviceModify` (`ec_set_associative_device_modify.cuh`).

An operation prepares its list on the device, calls `invalidate_tags_and_sync`, and
then copies rows and publishes tags. The helper catches its own exceptions and
reports a code; every caller drops that code and goes on. -/

namespace EmbedCache

open Lib

variable {w : Nat} {C : Type*}

structure DeviceState (w : Nat) (C : Type*) where
  dTags : Tags w
  dCounters : Nat → C
  cache : Memory

abbrev DeviceStep (w : Nat) (C : Type*) := GuardedStep ModifyCall ECError (DeviceState w C)

/-- Order in which the threads of a kernel reach its atomic counter. -/
abbrev AtomicOrder (w : Nat) := Arrangement (ModifyEntry w)

namespace CacheSADeviceModify

variable (cfg : CacheConfig w C)

def init [Zero C] (memory : Memory) : DeviceState w C where
  dTags := fun _ => cfg.sentinelKey
  dCounters := fun _ => 0
  cache := memory

/-- A launch with an empty grid is an invalid configuration. -/
def launchRefusal (numKeys : Nat) : Option ECError := if numKeys = 0 then some .cudaError else none

def invalidateTagsAndSync (table numKeys : Nat) (entries : List (ModifyEntry w)) :
    List (DeviceStep w C) :=
  [⟨.invalidateTags, none, fun state => { state with
      dTags :=
        callTagInvalidateKernel entries numKeys (tableBase cfg table) cfg.sentinelKey
          state.dTags }⟩,
   ⟨.streamSynchronize, none, id⟩,
   ⟨.eventRecord, none, id⟩,
   ⟨.eventWaitStream, none, id⟩]

def tagUpdateStep (table numKeys : Nat) (entries : List (ModifyEntry w)) : DeviceStep w C :=
  ⟨.tagUpdate, none, fun state => { state with
    dTags := callTagUpdateKernel entries numKeys (tableBase cfg table) state.dTags }⟩

def memUpdateStep (numKeys : Nat) (entries : List (ModifyEntry w)) : DeviceStep w C :=
  ⟨.memUpdate, none, fun state => { state with
    cache := callMemUpdateKernel entries numKeys (wrap32 cfg.embedWidthInBytes) state.cache }⟩

/-- `ModifyContext::input_type` is zeroed at creation and never assigned. -/
def contextInputType : DataTypeFormat := .fp16

def accumulateStep (arithmetic : RowArithmetic) (updateFormat cacheFormat : DataTypeFormat)
    (numKeys : Nat)
    (entries : List (ModifyEntry w)) : DeviceStep w C :=
  { call := .memUpdate
    refusal := if contextInputType = .int8Scaled then
      accumulateQuantizedRefusal updateFormat cacheFormat
      else accumulateRefusal updateFormat
    effect := fun state => { state with
      cache := callMemUpdateAccumulateKernel arithmetic updateFormat cacheFormat entries numKeys
        (wrap32 cfg.embedWidthInBytes) state.cache } }

/-- The shape all operations share: prepare, invalidate and synchronise, commit. The code of the
middle part is not looked at. -/
def runModify (outcome : Outcome) (prepare sync commit : List (DeviceStep w C))
    (state : DeviceState w C) :
    ECError × DeviceState w C :=
  let prepared := runSteps .success outcome prepare state
  if prepared.1 = .success then
    runSteps .success outcome commit (runSteps .success outcome sync prepared.2).2
  else prepared

variable (order : AtomicOrder w)

/-- The list as recorded on the device: the first `max_update_size` entries in atomic order. -/
def recorded (maxUpdateSz : Nat) (entries : List (ModifyEntry w)) : List (ModifyEntry w) :=
  (order.iterate entries).take maxUpdateSz

/-- Threads read entries up to `num_entries`, which counts the unrecorded ones too. -/
def overrun (maxUpdateSz numKeys : Nat) (entries : List (ModifyEntry w)) : Prop :=
  maxUpdateSz < min entries.length (launched32 numKeys)

instance (maxUpdateSz numKeys : Nat) (entries : List (ModifyEntry w)) :
    Decidable (overrun maxUpdateSz numKeys entries) :=
  inferInstanceAs (Decidable (_ < _))

def updatePrepare (numKeys : Nat) : List (DeviceStep w C) :=
  [⟨.copyList, none, id⟩, ⟨.setDataKernel, launchRefusal numKeys, id⟩]

/-- `invalidate`. No defined result when threads read past the recorded entries. -/
def invalidate (outcome : Outcome) (table maxUpdateSz : Nat) (keys : List (BitVec w))
    (state : DeviceState w C) :
    Option (ECError × DeviceState w C) :=
  let entries := computeSetInvalidateData cfg table keys state.dTags
  if overrun maxUpdateSz keys.length entries then none
  else some (runModify outcome (updatePrepare keys.length)
    (invalidateTagsAndSync cfg table keys.length (recorded order maxUpdateSz entries)) [] state)

def update (outcome : Outcome) (table maxUpdateSz : Nat) (keys : List (BitVec w))
    (buffer : RowBuffer)
    (state : DeviceState w C) : Option (ECError × DeviceState w C) :=
  let entries := computeSetUpdateData cfg table keys buffer state.dTags
  let list := recorded order maxUpdateSz entries
  if overrun maxUpdateSz keys.length entries then none
  else some (runModify outcome (updatePrepare keys.length)
    (invalidateTagsAndSync cfg table keys.length list)
    [memUpdateStep cfg keys.length list, tagUpdateStep cfg table keys.length list] state)

def updateAccumulate (arithmetic : RowArithmetic) (order : AtomicOrder w) (outcome : Outcome)
    (table maxUpdateSz : Nat)
    (updateFormat cacheFormat : DataTypeFormat) (keys : List (BitVec w)) (buffer : RowBuffer)
    (state : DeviceState w C) :
    Option (ECError × DeviceState w C) :=
  let entries := computeSetUpdateData cfg table keys buffer state.dTags
  let list := recorded order maxUpdateSz entries
  if overrun maxUpdateSz keys.length entries then none
  else some (runModify outcome (updatePrepare keys.length)
    (invalidateTagsAndSync cfg table keys.length list)
    [accumulateStep cfg arithmetic updateFormat cacheFormat keys.length list,
     tagUpdateStep cfg table keys.length list] state)

section Insert

variable [LinearOrder C] [Zero C] [Add C] [Mul C]

def insertPrepare (numKeys : Nat) (counters : Nat → C) : List (DeviceStep w C) :=
  [⟨.copyList, none, id⟩,
   ⟨.copyInputs, none, id⟩,
   ⟨.computeSet, none, fun state =>
     { state with dCounters := decayedCounters cfg state.dCounters }⟩,
   ⟨.sortBySet, none, id⟩,
   ⟨.setDataKernel, launchRefusal numKeys, fun state => { state with dCounters := counters }⟩]

/-- `insert`. The temporary storage is sized for `max_update_sz` keys; more keys overrun it. -/
def insert (outcome : Outcome) (table maxUpdateSz : Nat) (items : List (InsertItem w C))
    (state : DeviceState w C) :
    Option (ECError × DeviceState w C) :=
  if maxUpdateSz < items.length then none
  else
    let data := computeSetReplaceData cfg table items state.dTags state.dCounters
    let list := recorded order maxUpdateSz data.1
    some (runModify outcome (insertPrepare cfg items.length data.2)
      (invalidateTagsAndSync cfg table items.length list)
      [memUpdateStep cfg items.length list, tagUpdateStep cfg table items.length list] state)

end Insert

/-- `clear_cache`; the counters stay. -/
def clearCache (outcome : Outcome) (state : DeviceState w C) : ECError × DeviceState w C :=
  runSteps .success outcome
    [⟨.clearTags, none, fun state => { state with
        dTags := fun i => if i < cfg.numSets * numWays * cfg.numTables then cfg.sentinelKey
          else state.dTags i }⟩] state

end CacheSADeviceModify

end EmbedCache
