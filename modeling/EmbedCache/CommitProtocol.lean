import EmbedCache.JobSoundness
import EmbedCache.Lib.GracePeriod
import EmbedCache.Lib.Runs

/-! Lookups and custom flows on their streams, against one modify operation at a time.

The operation hides the tags it is about to change, synchronises with the lookup
streams through events recorded under the custom-flow lock, writes rows, and publishes
tags (`invalidate_tags_and_sync`, `CacheSAHostModify::modify`). Lookup kernels match
tags and read rows at any moment between their start and their end. Stores of one
kernel become visible in any order. -/

namespace EmbedCache

open Lib

variable {w : Nat} {C : Type*} {streams : Nat}

inductive CacheClass
  | hostModify
  | deviceModify
  deriving DecidableEq, Repr

/-- The ways of reading the cache. A caller's own flow between `start_custom_flow` and
`end_custom_flow` reads whole rows. -/
inductive LookupFlow
  | query
  | queryUvm
  | sortGather (stride : Nat)
  | customFlow

def LookupFlow.guarded : LookupFlow → Bool
  | .query | .queryUvm => false
  | .sortGather _ | .customFlow => true

structure Lookup (w : Nat) where
  flow : LookupFlow
  table : Nat
  keys : List (BitVec w)

/-- `find`, the first kernel of `lookup_sort_gather`, ignores the table index. -/
def Lookup.tableIndex (lookup : Lookup w) : Nat :=
  match lookup.flow with
  | .sortGather _ => 0
  | _ => lookup.table

variable (cfg : CacheConfig w C)

/-- The tag that `embed_cache_get_way_mask` compares with the key at a way. -/
def Lookup.tagSlot (lookup : Lookup w) (key : BitVec w) (way : Nat) : Nat :=
  let sets := wrap32 cfg.numSets
  lookup.tableIndex * sets * numWays + hashSetIdx key sets * numWays + way

/-- The row read after a match. Only `embed_cache_get_address` adds up the slot in 64 bits. -/
def Lookup.rowAddress (lookup : Lookup w) (key : BitVec w) (way : Nat) : Nat :=
  match lookup.flow with
  | .queryUvm => lookup.tagSlot cfg key way * cfg.embedWidthInBytes
  | _ => wrap32 (lookup.tagSlot cfg key way) * cfg.embedWidthInBytes

/-- How many bytes are read from there. `lookup_sort_gather` passes the output stride where
`call_sort_gather` expects the row size. -/
def Lookup.bytes (lookup : Lookup w) : Nat :=
  match lookup.flow with
  | .sortGather stride => wrap32 stride
  | _ => cfg.embedWidthInBytes

abbrev Owner (w : Nat) := BitVec w × (Nat → UInt8)

structure Snapshot (w : Nat) where
  key : BitVec w
  slot : Nat
  address : Nat
  owner : Option (Owner w)

structure CacheContents (w : Nat) (C : Type*) where
  tags : Tags w
  /-- `h_tags` of the host class; for the device class the tags once the operation is over. -/
  mirror : Tags w
  counters : Nat → C
  memory : Memory
  /-- The last complete row written to each slot, and for which key. -/
  installed : Nat → Option (Owner w)
  job : Option (ModifyJob w C)
  /-- The rows when the row kernel started. -/
  source : Memory

structure Machine (streams w : Nat) (C : Type*) where
  core : Core (Fin streams) Nat Nat
  cache : CacheContents w C
  lookups : Nat → Lookup w
  matched : Nat → List (Snapshot w)

inductive Event (streams w : Nat) (C : Type*)
  | lookup (r : Nat) (s : Fin streams) (lookup : Lookup w)
  | startCustomFlow (r : Nat) (s : Fin streams) (lookup : Lookup w)
  | silent
  | matchTag (r : Nat) (key : BitVec w) (way : Nat)
  | call (request : CommitRequest w C)
  | hideTag (i : Nat)
  | invalidated
  | startCopy
  | store (a : Nat) (value : UInt8)
  | copied
  | publishTag (entry : ModifyEntry w)
  | published

/-- Kernels queued and completed, flows ended, the lock, and the events of the operation. -/
inductive IsSilent : Action (Fin streams) Nat Nat → Prop
  | enqueue (r : Nat) : IsSilent (.enqueue r)
  | endCustomFlow (r : Nat) : IsSilent (.closeFlow r)
  | complete (s : Fin streams) : IsSilent (.complete s)
  | lock : IsSilent .lock
  | record (s : Fin streams) : IsSilent (.record s)
  | recorded : IsSilent .recorded
  | unlock : IsSilent .unlock

section Operation

variable [LinearOrder C] [Zero C] [Add C] [Mul C] (cfg : CacheConfig w C) (kind : CacheClass)
  (arithmetic : RowArithmetic)

def CacheContents.build (cache : CacheContents w C) (request : CommitRequest w C) :
    Option (ModifyJob w C) :=
  match kind with
  | .hostModify => some (CacheSAHostModify.job cfg arithmetic request cache.mirror cache.counters)
  | .deviceModify => CacheSADeviceModify.job cfg arithmetic request cache.tags cache.counters

def CacheContents.install (cache : CacheContents w C) (job : ModifyJob w C) :
    Nat → Option (Owner w) := fun i =>
  match job.entries.find? fun entry => entry.slot (tableBase cfg job.table) = i with
  | some entry =>
    let key := constructKey entry.tag entry.set cfg.numSets
    some (key,
      job.given key (rowBytes cache.source (i * cfg.embedWidthInBytes) cfg.embedWidthInBytes))
  | none => cache.installed i

end Operation

namespace Machine

def init (cfg : CacheConfig w C) [Zero C] (memory : Memory) : Machine streams w C where
  core := .init
  cache :=
    { tags := fun _ => cfg.sentinelKey
      mirror := fun _ => cfg.sentinelKey
      counters := fun _ => 0
      memory := memory
      installed := fun _ => none
      job := none
      source := memory }
  lookups := fun _ => ⟨.query, 0, []⟩
  matched := fun _ => []

def start (m : Machine streams w C) (r : Nat) (lookup : Lookup w)
    (core : Core (Fin streams) Nat Nat) :
    Machine streams w C :=
  { m with
    core := core
    lookups := Function.update m.lookups r lookup
    matched := Function.update m.matched r [] }

def snapshot (cfg : CacheConfig w C) (m : Machine streams w C) (r : Nat) (key : BitVec w)
    (way : Nat) : Snapshot w where
  key := key
  slot := (m.lookups r).tagSlot cfg key way
  address := (m.lookups r).rowAddress cfg key way
  owner := m.cache.installed ((m.lookups r).tagSlot cfg key way)

inductive Step [LinearOrder C] [Zero C] [Add C] [Mul C] (cfg : CacheConfig w C) (kind : CacheClass)
    (arithmetic : RowArithmetic) (m : Machine streams w C) :
      Event streams w C → Machine streams w C → Prop
  | lookup (r : Nat) (s : Fin streams) (lookup : Lookup w) (core : Core (Fin streams) Nat Nat)
      (plain : lookup.flow.guarded = false) (taken : m.core.Step (.launch r s) core) :
      m.Step cfg kind arithmetic (.lookup r s lookup) (m.start r lookup core)
  | startCustomFlow (r : Nat) (s : Fin streams) (lookup : Lookup w)
    (core : Core (Fin streams) Nat Nat)
      (guarded : lookup.flow.guarded = true) (taken : m.core.Step (.openFlow r s) core) :
      m.Step cfg kind arithmetic (.startCustomFlow r s lookup) (m.start r lookup core)
  | silent (action : Action (Fin streams) Nat Nat) (core : Core (Fin streams) Nat Nat)
    (quiet : IsSilent action)
      (taken : m.core.Step action core) :
      m.Step cfg kind arithmetic .silent { m with core := core }
  | matchTag (r : Nat) (key : BitVec w) (way : Nat) (core : Core (Fin streams) Nat Nat)
      (member : key ∈ (m.lookups r).keys) (bound : way < numWays)
      (rebuilt : constructKey (m.cache.tags ((m.lookups r).tagSlot cfg key way))
        (hashSetIdx key (wrap32 cfg.numSets)) (wrap32 cfg.numSets) = key)
      (taken : m.core.Step (.hold r ((m.lookups r).tagSlot cfg key way)) core) :
      m.Step cfg kind arithmetic (.matchTag r key way) { m with
        core := core
        matched := Function.update m.matched r (m.snapshot cfg r key way :: m.matched r) }
  | call (request : CommitRequest w C) (job : ModifyJob w C) (core : Core (Fin streams) Nat Nat)
      (built : m.cache.build cfg kind arithmetic request = some job) (accepted : job.refusal = none)
      (taken : m.core.Step (.begin (job.slots cfg)) core) :
      m.Step cfg kind arithmetic (.call request) { m with
        core := core
        cache := { m.cache with mirror := job.tags, counters := job.counters, job := some job } }
  -- `CacheSAHostModify::modify` returns at once when its list is empty
  | nothingToDo (request : CommitRequest w C) (job : ModifyJob w C) (host : kind = .hostModify)
      (built : m.cache.build cfg kind arithmetic request = some job) (empty : job.entries = [])
      (idle : m.core.phase = .idle) :
      m.Step cfg kind arithmetic (.call request) { m with
        cache := { m.cache with mirror := job.tags, counters := job.counters } }
  | hideTag (slots : Set Nat) (i : Nat) (here : m.core.phase = .concealing slots)
    (member : i ∈ slots) :
      m.Step cfg kind arithmetic (.hideTag i) { m with
        cache := { m.cache with tags := Function.update m.cache.tags i cfg.sentinelKey } }
  | invalidated (job : ModifyJob w C) (core : Core (Fin streams) Nat Nat)
    (active : m.cache.job = some job)
      (taken : m.core.Step .hide core) :
      m.Step cfg kind arithmetic .invalidated { m with
        core := core
        cache := { m.cache with tags := job.conceal cfg m.cache.tags } }
  | startCopy (core : Core (Fin streams) Nat Nat) (taken : m.core.Step .startWrite core) :
      m.Step cfg kind arithmetic .startCopy { m with
        core := core
        cache := { m.cache with source := m.cache.memory } }
  | store (job : ModifyJob w C) (slots : Set Nat) (a : Nat) (value : UInt8)
    (active : m.cache.job = some job)
      (here : m.core.phase = .writing slots) (reached : job.Stores cfg a) :
      m.Step cfg kind arithmetic (.store a value) { m with
        cache := { m.cache with memory := Function.update m.cache.memory a value } }
  | copied (job : ModifyJob w C) (core : Core (Fin streams) Nat Nat)
    (active : m.cache.job = some job)
      (taken : m.core.Step .endWrite core) :
      m.Step cfg kind arithmetic .copied { m with
        core := core
        cache := { m.cache with
          memory := job.write cfg arithmetic m.cache.source
          installed := m.cache.install cfg job } }
  | publishTag (job : ModifyJob w C) (slots : Set Nat) (entry : ModifyEntry w)
    (active : m.cache.job = some job)
      (here : m.core.phase = .written slots) (member : entry ∈ job.entries) :
      m.Step cfg kind arithmetic (.publishTag entry) { m with
        cache := { m.cache with
          tags := Function.update m.cache.tags (entry.slot (tableBase cfg job.table)) entry.tag } }
  | published (job : ModifyJob w C) (core : Core (Fin streams) Nat Nat)
    (active : m.cache.job = some job)
      (taken : m.core.Step .publish core) :
      m.Step cfg kind arithmetic .published { m with
        core := core
        cache := { m.cache with tags := job.publish cfg m.cache.tags, job := none } }

end Machine

end EmbedCache
