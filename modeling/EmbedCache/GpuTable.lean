import EmbedCache.HostModify
import EmbedCache.DeviceModify

/-! `GpuTable` (`gpu_table.cu`): the cache it builds and the cache operations it issues.

The constructor derives the cache configuration, the modify operations prepare their
arguments (histogram, parts of `max_modify_size` keys) and call the cache. The linear
table behind the cache is a separate memory and is not part of this state. A code
other than success is thrown by `NVE_CHECK_`, after whatever the call has already
done to the cache. -/

namespace EmbedCache

open Lib

variable {w : Nat} {C : Type*}

/-- `DataType_t`, as far as `TRSDataToEC` distinguishes it. -/
inductive DataType
  | float32
  | float16
  | other
  deriving DecidableEq, Repr

def trsDataToEC : DataType → Option DataTypeFormat
  | .float32 => some .fp32
  | .float16 => some .fp16
  | .other => none

theorem trsDataToEC_plain {dtype : DataType} {format : DataTypeFormat}
    (known : trsDataToEC dtype = some format) : format ≠ .int8Scaled := by
  cases dtype <;> cases known <;> decide

structure GPUTableConfig where
  cacheSize : Nat
  rowSizeInBytes : Int
  maxModifySize : Int
  valueDtype : DataType
  privateStream : Bool
  modifyOnGpu : Bool
  invalidKey : Int

def wrap64 (n : Nat) : Nat := n % 2 ^ 64

/-- `CACHE_ALIGN(size, 16)` on `size_t`. -/
def cacheAlign16 (size : Nat) : Nat := wrap64 (size + 15) / 16 * 16

/-- `calc_num_sets` for one table; only the device class keeps counters in its pool. -/
def calcNumSets (w cacheSize embedWidthInBytes : Nat) (modifyOnGpu : Bool) : Nat :=
  let tagSize := cacheAlign16 (w / 8 * numWays)
  let entrySize := cacheAlign16 (wrap64 (embedWidthInBytes * numWays))
  let counterSize := if modifyOnGpu then cacheAlign16 (4 * numWays) else 0
  cacheSize / wrap64 (tagSize + entrySize + counterSize)

/-- The state of the cache behind the table, by the class `modify_on_gpu` selects. -/
inductive CacheState (w : Nat) (C : Type*)
  | host (state : HostState w C)
  | device (state : DeviceState w C)

def CacheState.dTags : CacheState w C → Tags w
  | .host state => state.dTags
  | .device state => state.dTags

def CacheState.cache : CacheState w C → Memory
  | .host state => state.cache
  | .device state => state.cache

def CacheState.withCache (memory : Memory) : CacheState w C → CacheState w C
  | .host state => .host { state with cache := memory }
  | .device state => .device { state with cache := memory }

/-- What one cache call leaves to its surroundings: CUDA results and the two open orders. -/
structure Environment (w : Nat) where
  outcome : Outcome
  mapOrder : CacheSAHostModify.MapOrder w
  atomicOrder : AtomicOrder w

def quietEnvironment : Environment w := ⟨noFailure, inOrder, inOrder⟩

/-- A bin of the histograms; equal keys are counted and the first one's row is kept. -/
structure Bin (w : Nat) where
  key : BitVec w
  count : Nat
  data : Nat → UInt8

def addToBins (buffer : RowBuffer) (bins : List (Bin w)) (indexed : BitVec w × Nat) :
    List (Bin w) :=
  if bins.any fun bin => bin.key = indexed.1
  then bins.map fun bin => if bin.key = indexed.1 then { bin with count := bin.count + 1 } else bin
  else bins ++ [⟨indexed.1, 1, buffer.row indexed.2⟩]

def histogramBins (keys : List (BitVec w)) (buffer : RowBuffer) : List (Bin w) :=
  keys.zipIdx.foldl (addToBins buffer) []

/-- What `DefaultHistogram` and `DefaultGPUHistogram` hand to the cache: the bins in an order that
sorts the counts, with priorities `share count total`. -/
def histogramItems (share : Nat → Nat → C) (order : Arrangement (Bin w)) (keys : List (BitVec w))
    (buffer : RowBuffer) : List (InsertItem w C) :=
  (order.iterate (histogramBins keys buffer)).map fun bin =>
    ⟨bin.key, share bin.count keys.length, bin.data⟩

/-- The loop `for (k_start = 0; k_start < num_keys; k_start += size)`: first key and keys of each
part. -/
def modifyParts (size : Nat) : Nat → Nat → List (BitVec w) → List (Nat × List (BitVec w))
  | 0, _, _ => []
  | fuel + 1, start, keys =>
    if keys.isEmpty then [] else (start, keys.take size) :: modifyParts size fuel (start + size)
      (keys.drop size)

def RowBuffer.from (buffer : RowBuffer) (start : Nat) : RowBuffer :=
  { buffer with values := fun i => buffer.values (start * buffer.stride + i) }

def runParts (step : Nat → List (BitVec w) → CacheState w C → Option (ECError × CacheState w C)) :
    List (Nat × List (BitVec w)) → CacheState w C → Option (ECError × CacheState w C)
  | [], state => some (.success, state)
  | part :: rest, state =>
    match step part.1 part.2 state with
    | none => none
    | some (.success, next) => runParts step rest next
    | some (code, next) => some (code, next)

namespace GpuTable

def create (config : GPUTableConfig) (decayRate : C) : Option (CacheConfig w C) :=
  if config.rowSizeInBytes % 2 ≠ 0 then none
  else
    let width := (config.rowSizeInBytes % 2 ^ 64).toNat
    let numSets := calcNumSets w config.cacheSize width config.modifyOnGpu
    if numSets = 0 then none
    else some
      { numSets := numSets
        numTables := 1
        embedWidthInBytes := width
        decayRate := decayRate
        sentinelKey := BitVec.ofInt w config.invalidKey }

def maxUpdateSz (config : GPUTableConfig) : Nat := (config.maxModifySize % 2 ^ 32).toNat

def init (config : GPUTableConfig) (cfg : CacheConfig w C) [Zero C] (memory : Memory) :
    CacheState w C :=
  if config.modifyOnGpu then .device (CacheSADeviceModify.init cfg memory)
  else .host (CacheSAHostModify.init cfg memory)

/-- Without a modify context (`max_modify_size < 1`) the cache rejects the call. -/
def withContext (config : GPUTableConfig) (state : CacheState w C)
    (call : Option (ECError × CacheState w C)) : Option (ECError × CacheState w C) :=
  if config.maxModifySize < 1 then some (.invalidArgument, state) else call

def onHost (result : ECError × HostState w C) : ECError × CacheState w C :=
  (result.1, .host result.2)

def onDevice (result : ECError × DeviceState w C) : ECError × CacheState w C :=
  (result.1, .device result.2)

variable (config : GPUTableConfig) (cfg : CacheConfig w C) (arithmetic : RowArithmetic)

def clear [Zero C] (env : Environment w) : CacheState w C → Option (ECError × CacheState w C)
  | .host state => some (onHost (CacheSAHostModify.clearCache cfg env.outcome state))
  | .device state => some (onDevice (CacheSADeviceModify.clearCache cfg env.outcome state))

/-- `erase` passes all keys on in one call. -/
def erase (env : Environment w) (keys : List (BitVec w)) (state : CacheState w C) :
    Option (ECError × CacheState w C) :=
  withContext config state <|
    match state with
    | .host state =>
      (CacheSAHostModify.invalidate cfg arithmetic env.outcome 0
        (maxUpdateSz config) keys state).map onHost
    | .device state =>
      (CacheSADeviceModify.invalidate cfg env.atomicOrder env.outcome 0
        (maxUpdateSz config) keys state).map onDevice

/-- `insert`. The device class gets at most `max_modify_size` bins. -/
def insert [LinearOrder C] [Zero C] [Add C] [Mul C] (share : Nat → Nat → C)
    (order : Arrangement (Bin w))
    (env : Environment w) (keys : List (BitVec w)) (valueSize : Int) (buffer : RowBuffer)
    (state : CacheState w C) :
    Option (ECError × CacheState w C) :=
  if valueSize ≠ config.rowSizeInBytes then some (.invalidArgument, state)
  else withContext config state <|
    let items := histogramItems share order keys buffer
    match state with
    | .host state => some (onHost
        (CacheSAHostModify.insert cfg arithmetic env.mapOrder env.outcome 0
          (maxUpdateSz config) items state))
    | .device state =>
      (CacheSADeviceModify.insert cfg env.atomicOrder env.outcome 0 (maxUpdateSz config)
        (items.take config.maxModifySize.toNat) state).map onDevice

def updatePart (env : Environment w) (buffer : RowBuffer) (start : Nat) (keys : List (BitVec w)) :
    CacheState w C → Option (ECError × CacheState w C)
  | .host state => some (onHost
      (CacheSAHostModify.update cfg arithmetic env.outcome 0 (maxUpdateSz config) keys
        (buffer.from start) state))
  | .device state =>
    (CacheSADeviceModify.update cfg env.atomicOrder env.outcome 0 (maxUpdateSz config) keys
      (buffer.from start) state).map onDevice

/-- The cache side of `update`, in parts of `max_modify_size` keys. -/
def update (env : Nat → Environment w) (keys : List (BitVec w)) (updateSize : Int)
    (buffer : RowBuffer)
    (state : CacheState w C) : Option (ECError × CacheState w C) :=
  if updateSize ≠ config.rowSizeInBytes then some (.invalidArgument, state)
  else withContext config state <|
    runParts (fun start part => updatePart config cfg arithmetic (env start) buffer start part)
      (modifyParts config.maxModifySize.toNat keys.length 0 keys) state

def accumulatePart (env : Environment w) (updateFormat cacheFormat : DataTypeFormat)
    (buffer : RowBuffer)
    (start : Nat) (keys : List (BitVec w)) : CacheState w C → Option (ECError × CacheState w C)
  | .host state => some (onHost (CacheSAHostModify.updateAccumulate cfg arithmetic env.outcome 0
      (maxUpdateSz config) updateFormat cacheFormat keys (buffer.from start) state))
  | .device state =>
    (CacheSADeviceModify.updateAccumulate cfg arithmetic env.atomicOrder env.outcome 0
      (maxUpdateSz config) updateFormat cacheFormat keys (buffer.from start) state).map onDevice

/-- `update_accumulate_no_sync`: rows found by the lookup are added to in place. -/
def accumulateNoSync (updateFormat cacheFormat : DataTypeFormat) (keys : List (BitVec w))
    (buffer : RowBuffer)
    (state : CacheState w C) : CacheState w C :=
  let hits := keys.zipIdx.filterMap fun hit =>
    (queryAddress cfg 0 state.dTags hit.1).map fun address =>
    (⟨buffer.row hit.2, address, 0, 0, 0⟩ : ModifyEntry w)
  state.withCache
    (memUpdateAccumulateKernel arithmetic updateFormat cacheFormat hits cfg.embedWidthInBytes
      state.cache)

/-- The cache side of `update_accumulate`. -/
def updateAccumulate (env : Nat → Environment w) (updateDtype : DataType) (keys : List (BitVec w))
    (updateSize : Int) (buffer : RowBuffer) (state : CacheState w C) :
      Option (ECError × CacheState w C) :=
  if keys.isEmpty then some (.success, state)
  else if updateSize ≠ config.rowSizeInBytes then some (.invalidArgument, state)
  else match trsDataToEC updateDtype, trsDataToEC config.valueDtype with
    | some updateFormat, some cacheFormat =>
      if config.privateStream then
        match accumulateRefusal updateFormat with
        | some code => some (code, state)
        | none =>
          if (env 0).outcome .memUpdate = .success
          then some
            (.success, accumulateNoSync cfg arithmetic updateFormat cacheFormat keys buffer state)
          else some ((env 0).outcome .memUpdate, state)
      else withContext config state <|
        runParts (fun start part =>
            accumulatePart config cfg arithmetic
              (env start) updateFormat cacheFormat buffer start part)
          (modifyParts config.maxModifySize.toNat keys.length 0 keys) state
    | _, _ => some (.notImplemented, state)

def find (key : BitVec w) (state : CacheState w C) : Option Row :=
  lookup cfg 0 state.dTags state.cache key

end GpuTable

end EmbedCache
