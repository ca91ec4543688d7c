import EmbedCache.ModifyList
import EmbedCache.Lib.Calls

/-! `CacheSAHostModify` (`ec_set_associative_host_modify.h`).

Tags and counters live on the host, the tags are mirrored on the device. Every
operation first computes its modify list from the host tags and then runs
`modify`, a sequence of CUDA calls that stops at the first failure. Work queued on
the stream of the operation runs in order, so its effect is applied call by call. -/

namespace EmbedCache

open Lib

variable {w : Nat} {C : Type*}

structure HostState (w : Nat) (C : Type*) where
  hTags : Tags w
  dTags : Tags w
  hCounters : Nat → C
  cache : Memory

inductive ModifyCall
  | copyList
  | copyEntries
  | copyInputs
  | computeSet
  | sortBySet
  | setDataKernel
  | invalidateTags
  | streamSynchronize
  | eventRecord
  | eventWaitStream
  | memUpdate
  | tagUpdate
  | clearTags
  deriving DecidableEq, Repr

abbrev Outcome := ModifyCall → ECError

def noFailure : Outcome := fun _ => .success

abbrev HostStep (w : Nat) (C : Type*) := GuardedStep ModifyCall ECError (HostState w C)

structure ModifyRequest where
  op : ModifyOpType
  inputType : DataTypeFormat
  outputType : DataTypeFormat

namespace CacheSAHostModify

/-- The state after `init`; the rows are whatever the pool contained. -/
def init (cfg : CacheConfig w C) [Zero C] (memory : Memory) : HostState w C where
  hTags := fun _ => cfg.sentinelKey
  dTags := fun _ => cfg.sentinelKey
  hCounters := fun _ => 0
  cache := memory

/-- The row copy chosen by `modify` for the operation. -/
def memUpdateStep (cfg : CacheConfig w C) (arithmetic : RowArithmetic) (request : ModifyRequest)
    (entries : List (ModifyEntry w)) : HostStep w C :=
  match request.op with
  | .updateAccumulate =>
    { call := .memUpdate
      refusal := if request.inputType = .int8Scaled
        then accumulateQuantizedRefusal request.inputType request.outputType
        else accumulateRefusal request.inputType
      effect := fun state => { state with
        cache :=
          callMemUpdateAccumulateKernel arithmetic request.inputType request.outputType entries
          entries.length (wrap32 cfg.embedWidthInBytes) state.cache } }
  | _ =>
    { call := .memUpdate
      refusal := none
      effect := fun state => { state with
        cache :=
          callMemUpdateKernel entries entries.length (wrap32 cfg.embedWidthInBytes) state.cache } }

def modifySteps (cfg : CacheConfig w C) (arithmetic : RowArithmetic) (request : ModifyRequest)
    (table : Nat)
    (entries : List (ModifyEntry w)) : List (HostStep w C) :=
  [⟨.copyList, none, id⟩,
   ⟨.copyEntries, none, id⟩,
   ⟨.invalidateTags, none, fun state => { state with
      dTags := callTagInvalidateKernel entries entries.length (tableBase cfg table) cfg.sentinelKey
        state.dTags }⟩,
   ⟨.streamSynchronize, none, id⟩,
   ⟨.eventRecord, none, id⟩,
   ⟨.eventWaitStream, none, id⟩] ++
  if request.op = .invalidate then []
  else
    [memUpdateStep cfg arithmetic request entries,
     ⟨.tagUpdate, none, fun state => { state with
        dTags := callTagUpdateKernel entries entries.length (tableBase cfg table) state.dTags }⟩]

def modify (cfg : CacheConfig w C) (arithmetic : RowArithmetic) (outcome : Outcome)
    (request : ModifyRequest)
    (table : Nat) (entries : List (ModifyEntry w)) (state : HostState w C) :
      ECError × HostState w C :=
  if entries.length = 0 then (.success, state)
  else runSteps .success outcome (modifySteps cfg arithmetic request table entries) state

/-- One iteration over the ways of a key in `invalidate`. The set index is a `uint32_t` there. -/
def invalidateWay (cfg : CacheConfig w C) (table : Nat) (key : BitVec w)
    (scan : Tags w × List (ModifyEntry w)) (j : Nat) : Tags w × List (ModifyEntry w) :=
  let set := hashSetIdx key cfg.numSets
  let slot := tableBase cfg table + wrap32 (set * numWays) + j
  if constructKey (scan.1 slot) set cfg.numSets = key then
    (Function.update scan.1 slot cfg.sentinelKey,
      scan.2 ++ [⟨fun _ => 0, 0, set, j, cfg.sentinelKey⟩])
  else scan

def invalidateScan (cfg : CacheConfig w C) (table : Nat) (keys : List (BitVec w)) (tags : Tags w) :
    Tags w × List (ModifyEntry w) :=
  keys.foldl (fun scan key => (List.range numWays).foldl (invalidateWay cfg table key) scan)
    (tags, [])

/-- `invalidate`. The list is written without a bound check: an entry past `max_update_sz`
leaves the allocation, and the call has no defined result. -/
def invalidate (cfg : CacheConfig w C) (arithmetic : RowArithmetic) (outcome : Outcome)
    (table maxUpdateSz : Nat)
    (keys : List (BitVec w)) (state : HostState w C) : Option (ECError × HostState w C) :=
  let scan := invalidateScan cfg table keys state.hTags
  if maxUpdateSz < scan.2.length then none
  else some (modify cfg arithmetic outcome ⟨.invalidate, .fp16, .fp16⟩ table scan.2
    { state with hTags := scan.1 })

/-- The state of the loop of `insert`; `insertMap` is keyed by the slot inside the table. -/
structure InsertScan (w : Nat) (C : Type*) where
  tags : Tags w
  counters : Nat → C
  insertMap : List (Nat × ModifyEntry w)

section Insert

variable [LT C] [DecidableLT C] [Add C] [Mul C]

/-- `std::min_element` over the ways from `base` on: the first of the smallest counters. -/
def minElement (counters : Nat → C) (base : Nat) : Nat :=
  (List.range numWays).foldl (fun best j =>
    if counters (base + j) < counters (base + best) then j else best) 0

/-- The body of the loop of `insert` for one key. -/
def insertKey (cfg : CacheConfig w C) (table : Nat) (scan : InsertScan w C)
    (item : InsertItem w C) :
    InsertScan w C :=
  let set := hashSetIdx item.key cfg.numSets
  let base := tableBase cfg table + set * numWays
  match searchWays scan.tags base set cfg.numSets item.key with
  | some j =>
    { scan with counters :=
      Function.update scan.counters (base + j) (scan.counters (base + j) + item.priority) }
  | none =>
    let candidate := minElement scan.counters base
    let hashkey := set * numWays + candidate
    if item.priority < scan.counters (base + candidate) then scan
    else if scan.insertMap.any fun placed => placed.1 = hashkey then scan
    else
      let tag := constructTag item.key cfg.numSets
      { tags := Function.update scan.tags (base + candidate) tag
        counters := Function.update scan.counters (base + candidate) item.priority
        insertMap := scan.insertMap ++ [(hashkey,
          { src := item.data
            dst := tableBase cfg table * cfg.embedWidthInBytes + hashkey * cfg.embedWidthInBytes
            set := set
            way := candidate
            tag := tag })] }

/-- The loop of `insert`, left as soon as `max_update_sz` slots are taken. -/
def insertScan (cfg : CacheConfig w C) (table maxUpdateSz : Nat) :
    List (InsertItem w C) → InsertScan w C → InsertScan w C
  | [], scan => scan
  | item :: rest, scan =>
    if scan.insertMap.length < maxUpdateSz
    then insertScan cfg table maxUpdateSz rest (insertKey cfg table scan item)
    else scan

def decayCounters (cfg : CacheConfig w C) (table : Nat) (counters : Nat → C) : Nat → C := fun i =>
  if tableBase cfg table ≤ i ∧ i < tableBase cfg table + cfg.numSets * numWays
  then counters i * cfg.decayRate else counters i

/-- Iteration order of `std::unordered_map`. -/
abbrev MapOrder (w : Nat) := Arrangement (Nat × ModifyEntry w)

def insert (cfg : CacheConfig w C) (arithmetic : RowArithmetic) (order : MapOrder w)
    (outcome : Outcome)
    (table maxUpdateSz : Nat) (items : List (InsertItem w C)) (state : HostState w C) :
      ECError × HostState w C :=
  let scan := insertScan cfg table maxUpdateSz items
    ⟨state.hTags, decayCounters cfg table state.hCounters, []⟩
  modify cfg arithmetic outcome ⟨.replace, .fp16, .fp16⟩ table
    ((order.iterate scan.insertMap).map Prod.snd)
    { state with hTags := scan.tags, hCounters := scan.counters }

end Insert

/-- `search_tag_storage_for_update` from key `i` on. The slot is computed in the wider of
`IndexT` and `uint32_t`. -/
def searchTagStorageForUpdate (cfg : CacheConfig w C) (table maxUpdateSz : Nat) (tags : Tags w)
    (buffer : RowBuffer) : Nat → List (BitVec w) → List (ModifyEntry w) → List (ModifyEntry w)
  | _, [], entries => entries
  | i, key :: rest, entries =>
    if entries.length < maxUpdateSz then
      let set := hashSetIdx key cfg.numSets
      let offset := set * numWays % 2 ^ max 32 w
      match searchWays tags (tableBase cfg table + offset) set cfg.numSets key with
      | none => searchTagStorageForUpdate cfg table maxUpdateSz tags buffer (i + 1) rest entries
      | some j => searchTagStorageForUpdate cfg table maxUpdateSz tags buffer (i + 1) rest
          (entries ++ [{ src := buffer.row i
                         dst := tableBase cfg table * cfg.embedWidthInBytes +
                           (offset + j) % 2 ^ max 32 w * cfg.embedWidthInBytes
                         set := set
                         way := j
                         tag := tags (tableBase cfg table + offset + j) }])
    else entries

def update (cfg : CacheConfig w C) (arithmetic : RowArithmetic) (outcome : Outcome)
    (table maxUpdateSz : Nat)
    (keys : List (BitVec w)) (buffer : RowBuffer) (state : HostState w C) :
      ECError × HostState w C :=
  modify cfg arithmetic outcome ⟨.update, .fp16, .fp16⟩ table
    (searchTagStorageForUpdate cfg table maxUpdateSz state.hTags buffer 0 keys []) state

def updateAccumulate (cfg : CacheConfig w C) (arithmetic : RowArithmetic) (outcome : Outcome)
    (table maxUpdateSz : Nat) (updateFormat cacheFormat : DataTypeFormat) (keys : List (BitVec w))
    (buffer : RowBuffer) (state : HostState w C) : ECError × HostState w C :=
  modify cfg arithmetic outcome ⟨.updateAccumulate, updateFormat, cacheFormat⟩ table
    (searchTagStorageForUpdate cfg table maxUpdateSz state.hTags buffer 0 keys []) state

/-- `clear_cache`, over all tables. -/
def clearCache (cfg : CacheConfig w C) [Zero C] (outcome : Outcome) (state : HostState w C) :
    ECError × HostState w C :=
  let total := cfg.numSets * numWays * cfg.numTables
  let cleared : HostState w C := { state with
    hTags := fun i => if i < total then cfg.sentinelKey else state.hTags i
    hCounters := fun i => if i < total then 0 else state.hCounters i }
  runSteps .success outcome
    [⟨.clearTags, none, fun state => { state with
        dTags := fun i => if i < total then state.hTags i else state.dTags i }⟩] cleared

/-- `get_keys_stored_in_cache`, which walks the tags of the first table. -/
def getKeysStoredInCache (cfg : CacheConfig w C) (state : HostState w C) : List (BitVec w) :=
  (List.range cfg.numSets).flatMap fun i =>
    (List.range numWays).filterMap fun j =>
      let tag := state.hTags (i * numWays + j)
      if tag = cfg.sentinelKey then none else some (constructKey tag i cfg.numSets)

end CacheSAHostModify

end EmbedCache
