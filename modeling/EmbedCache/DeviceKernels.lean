import EmbedCache.ModifyList
import EmbedCache.Lib.Exchange

/-! The list-building kernels of `ec_set_associative_modify.cuh`.

`SetReplaceDataKernel` gives eight lanes to each represented set. The lanes keep the
best candidates seen so far as pairs of a priority and a location in the call's
arrays, sort every chunk of eight and merge it into the best ones. The grouping of
the keys by set (radix sort, run-length encoding, prefix sum) is taken at its
documented result. -/

namespace EmbedCache

open Lib

variable {w : Nat} {C : Type*}

abbrev Lane := Fin numWays

abbrev Lanes (C : Type*) := Lane → C × Nat

def lanePair (j : Nat) (x : Lane) : Lane := ⟨(x.val ^^^ j) % numWays, Nat.mod_lt _ (by decide)⟩

theorem reverseLane_lt (x : Lane) : numWays - 1 - x.val < numWays := by
  simp only [numWays]
  omega

def reverseLane (x : Lane) : Lane := ⟨numWays - 1 - x.val, reverseLane_lt x⟩

/-- A `uint32_t` stored in a `float` and read back: 24 significant bits, ties to even. -/
def throughFloat (n : Nat) : Nat :=
  if n < 2 ^ 24 then n
  else
    let unit := 2 ^ (Nat.log2 n - 23)
    let rounded :=
      if unit < 2 * (n % unit) ∨ (2 * (n % unit) = unit ∧ n / unit % 2 = 1) then n / unit + 1
      else n / unit
    min (rounded * unit) (2 ^ 32 - 1)

theorem throughFloat_of_lt {n : Nat} (small : n < 2 ^ 24) : throughFloat n = n := if_pos small

section Networks

variable [LinearOrder C]

def sortSwap (k j : Nat) (v : Lanes C) (x : Lane) : Bool :=
  let pair := lanePair j x
  if (v x).1 = (v pair).1 then false
  else
    let inOrderPos := decide (pair < x)
    let inOrderCount := decide ((v pair).1 < (v x).1)
    if x.val &&& k ≠ 0 then inOrderPos != inOrderCount else inOrderPos == inOrderCount

def sortSchedule : List (Nat × Nat) := [(2, 1), (4, 2), (4, 1), (8, 4), (8, 2), (8, 1)]

def sortBlock (v : Lanes C) : Lanes C :=
  sortSchedule.foldl (fun v round => exchange (lanePair round.2) (sortSwap round.1 round.2 v) v) v

/-- The decision of a lane in round `j` of `MergeBlock`. Equal priorities are not singled out
here. -/
def mergeSwap (j : Nat) (v : Lanes C) (x : Lane) : Bool :=
  let pair := lanePair j x
  decide (x < pair) != decide ((v pair).1 < (v x).1)

def mergeSchedule : List Nat := [4, 2, 1]

def mergeRounds (rounds : List Nat) (v : Lanes C) : Lanes C :=
  rounds.foldl (fun v j => exchange (lanePair j) (mergeSwap j v) v) v

/-- The first half of `MergeBlock`: the better of a lane and the mirrored lane of the second
block. The mirrored position travels through a `float`. -/
def mergeStart (first second : Lanes C) : Lanes C := fun x =>
  let mirrored := second (reverseLane x)
  if (first x).1 < mirrored.1 then (mirrored.1, throughFloat mirrored.2) else first x

def mergeBlock (first second : Lanes C) : Lanes C :=
  mergeRounds mergeSchedule (mergeStart first second)

end Networks

section Replace

variable [LinearOrder C] [Zero C] [Add C]

def itemAt (items : List (InsertItem w C)) (loc : Nat) : InsertItem w C :=
  items.getD loc ⟨0, 0, fun _ => 0⟩

structure SetWork (w : Nat) (C : Type*) where
  numSets : Nat
  set : Nat
  sentinel : BitVec w
  ways : Lane → BitVec w
  counters : Lane → C
  items : List (InsertItem w C)
  locations : List Nat

namespace SetWork

variable (work : SetWork w C)

def matchesWay (x : Lane) (loc : Nat) : Bool :=
  constructKey (work.ways x) work.set work.numSets == (itemAt work.items loc).key

/-- The key at `loc` is already in one of the ways. -/
def isHit (loc : Nat) : Bool := (List.finRange numWays).any fun x => work.matchesWay x loc

def bumped (x : Lane) : C :=
  work.locations.foldl
    (fun counter loc => if work.matchesWay x loc then counter + (itemAt work.items loc).priority
      else counter)
    (work.counters x)

def loadChunk (processed : Nat) : Lanes C := fun x =>
  match work.locations[processed + x.val]? with
  | none => (0, 0)
  | some loc => if work.isHit loc then (0, 0) else ((itemAt work.items loc).priority, loc)

/-- The best candidates after the first chunk and `chunks` further ones. -/
def bestAfter : Nat → Lanes C
  | 0 => sortBlock (work.loadChunk 0)
  | chunks + 1 => mergeBlock (bestAfter chunks)
    (sortBlock (work.loadChunk ((chunks + 1) * numWays)))

def best : Lanes C := work.bestAfter ((work.locations.length - 1) / numWays)

/-- Counters and ways in ascending order of the counters; an empty way counts as zero. -/
def victims : Lanes C := fun x =>
  sortBlock (fun x => (if work.ways x = work.sentinel then 0 else work.bumped x, x.val))
    (reverseLane x)

def needToWrite (x : Lane) : Bool :=
  decide (x.val < min numWays work.locations.length) &&
    decide ((work.victims x).1 < (work.best x).1)

def writers : List Lane := (List.finRange numWays).filter work.needToWrite

def finalCounters : Lane → C := fun way =>
  work.writers.foldl (fun counter x => if (work.victims x).2 = way.val then (work.best x).1
    else counter)
    (work.bumped way)

/-- The entry written by lane `x`; `set * NUM_WAYS + way` is a `uint32_t`, the byte offset is
not. -/
def entry (base width : Nat) (x : Lane) : ModifyEntry w :=
  let item := itemAt work.items (work.best x).2
  { src := item.data
    dst := base * width + wrap32 (work.set * numWays + (work.victims x).2) * wrap32 width
    set := work.set
    way := (work.victims x).2
    tag := constructTag item.key work.numSets }

end SetWork

variable [Mul C] (cfg : CacheConfig w C)

/-- `ComputeSetKernel` multiplies every counter of the cache by the decay rate. -/
def decayedCounters (counters : Nat → C) : Nat → C := fun i =>
  if i < wrap32 cfg.numSets * numWays then counters i * cfg.decayRate else counters i

def groupBySet (table : Nat) (items : List (InsertItem w C)) (tags : Tags w) (counters : Nat → C) :
    List (SetWork w C) :=
  let sets := wrap32 cfg.numSets
  let represented := (List.range sets).filter fun set => items.any fun item =>
    hashSetIdx item.key sets = set
  represented.map fun set =>
    { numSets := sets
      set := set
      sentinel := cfg.sentinelKey
      ways := fun x => tags (tableBase cfg table + wrap32 (set * numWays) + x)
      counters := fun x => counters (wrap32 (set * numWays) + x)
      items := items
      locations := (List.range items.length).filter fun loc =>
        hashSetIdx (itemAt items loc).key sets = set }

/-- The list and the counters left by `ComputeSetReplaceData`. All tables share one block of
counters. -/
def computeSetReplaceData (table : Nat) (items : List (InsertItem w C)) (tags : Tags w)
    (counters : Nat → C) :
    List (ModifyEntry w) × (Nat → C) :=
  let decayed := decayedCounters cfg counters
  let works := groupBySet cfg table items tags decayed
  (works.flatMap fun work => work.writers.map
    (work.entry (tableBase cfg table) cfg.embedWidthInBytes),
   fun i => match works.find? fun work => wrap32 (work.set * numWays) = i / numWays * numWays with
     | some work => work.finalCounters ⟨i % numWays, Nat.mod_lt _ (by decide)⟩
     | none => decayed i)

end Replace

/-- Row `i` of the values passed to a device update: `keyID * value_stride` is a `uint32_t`. -/
def RowBuffer.row32 (buffer : RowBuffer) (i : Nat) : Nat → UInt8 :=
  fun offset => buffer.values (wrap32 (i * (buffer.stride % 2 ^ 32).toNat) + offset)

/-- `SetUpdateDataKernel`: one thread a key, one entry for every way that holds it. Outside of
`invalidate_only` the row address is added up in `uint32_t`. -/
def setUpdateDataKernel (cfg : CacheConfig w C) (table : Nat) (keys : List (BitVec w))
    (tags : Tags w)
    (makeEntry : BitVec w → Nat → Nat → ModifyEntry w) : List (ModifyEntry w) :=
  keys.zipIdx.flatMap fun hit =>
    let set := hashSetIdx hit.1 (wrap32 cfg.numSets)
    (List.range numWays).filterMap fun j =>
      if constructKey (tags (tableBase cfg table + wrap32 (set * numWays) + j)) set
        (wrap32 cfg.numSets) = hit.1
      then some (makeEntry hit.1 hit.2 j) else none

def computeSetUpdateData (cfg : CacheConfig w C) (table : Nat) (keys : List (BitVec w))
    (buffer : RowBuffer)
    (tags : Tags w) : List (ModifyEntry w) :=
  setUpdateDataKernel cfg table keys tags fun key keyID j =>
    let set := hashSetIdx key (wrap32 cfg.numSets)
    { src := buffer.row32 keyID
      dst := tableBase cfg table * cfg.embedWidthInBytes +
        wrap32 ((set * numWays + j) * wrap32 cfg.embedWidthInBytes)
      set := set
      way := j
      tag := constructTag key (wrap32 cfg.numSets) }

def computeSetInvalidateData (cfg : CacheConfig w C) (table : Nat) (keys : List (BitVec w))
    (tags : Tags w) :
    List (ModifyEntry w) :=
  setUpdateDataKernel cfg table keys tags fun key _ j =>
    { src := fun _ => 0
      dst := 0
      set := hashSetIdx key (wrap32 cfg.numSets)
      way := j
      tag := cfg.sentinelKey }

end EmbedCache
