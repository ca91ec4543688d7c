import EmbedCache.BufferWrapper
import EmbedCache.Cache

/-! `HierarchicalEmbeddingLayer` (`hierarchical_embedding_layer.cu`): a stack of tables and its
lookup.

The tables are asked one after the other. They share a hit mask and work on the mirrors
of the output that lie in their kind of memory; afterwards missing rows get the default
embedding and the two sides are combined. All tables of a stack have one row size. -/

namespace EmbedCache

open Lib

variable {w : Nat}

structure RowShape where
  width : Nat
  stride : Nat
  positive : 0 < width
  fits : width ≤ stride

def writeRows (shape : RowShape) (chosen : Nat → Option (Nat → UInt8)) (values : Nat → UInt8) :
    Nat → UInt8 := fun a =>
  match chosen (a / shape.stride) with
  | some row => if a % shape.stride < shape.width then row (a % shape.stride) else values a
  | none => values a

/-- The kinds of tables. A table over unified memory has a cache in front; a map table is
partitioned by its keys. -/
inductive TableKind (w : Nat)
  | gpuCache (countMisses : Bool)
  | gpuUvm (countMisses : Bool) (cached : BitVec w → Bool)
  | hostMap (numParts : Nat) (partitioner : BitVec w → Fin numParts)
  | hostLinear

def TableKind.onGpu : TableKind w → Bool
  | .gpuCache _ | .gpuUvm _ _ => true
  | .hostMap _ _ | .hostLinear => false

def TableKind.countsHits (kind : TableKind w) : Bool := !kind.onGpu

def TableKind.isLinear : TableKind w → Bool
  | .gpuUvm _ _ | .hostLinear => true
  | .gpuCache _ | .hostMap _ _ => false

/-- A table as lookups see it. GPU tables are only built with even row sizes. -/
structure LayerTable (w : Nat) (shape : RowShape) where
  kind : TableKind w
  device : Nat
  content : BitVec w → Option (Nat → UInt8)
  total : kind.isLinear → ∀ key, (content key).isSome
  even : kind.onGpu → shape.width % 2 = 0

structure FindResult where
  mask : Nat → Bool
  values : Nat → UInt8
  counter : Nat

section Find

variable {shape : RowShape} (content : BitVec w → Option (Nat → UInt8)) (keys : List (BitVec w))
  (mask : Nat → Bool)

def chosenRow (i : Nat) : Option (Nat → UInt8) := if mask i then none else keys[i]?.bind content

def maskAfter (i : Nat) : Bool := mask i || (chosenRow content keys mask i).isSome

def newHits : Nat := (List.range keys.length).countP fun i => (chosenRow content keys mask i).isSome

def newMisses : Nat := (List.range keys.length).countP fun i =>
    !mask i && (chosenRow content keys mask i).isNone

/-- The scan of one partition by `STLContainerTable::find_`: other partitions' keys are passed
over. -/
def findPart (shape : RowShape) {numParts : Nat} (partitioner : BitVec w → Fin numParts)
    (found : FindResult)
    (part : Fin numParts) : FindResult :=
  let slotMap := fun key => if partitioner key = part then content key else none
  { mask := maskAfter slotMap keys found.mask
    values := writeRows shape (chosenRow slotMap keys found.mask) found.values
    counter := found.counter + newHits slotMap keys found.mask }

end Find

/-- `find`, with the counter it leaves. -/
def LayerTable.find {shape : RowShape} (table : LayerTable w shape) (keys : List (BitVec w))
    (mask : Nat → Bool)
    (values : Nat → UInt8) : FindResult :=
  match table.kind with
  | .gpuCache countMisses =>
    { mask := maskAfter table.content keys mask
      values := writeRows shape (chosenRow table.content keys mask) values
      counter := if countMisses then newMisses table.content keys mask else 0 }
  | .gpuUvm countMisses cached =>
    -- the kernels over unified memory neither read nor set the hit mask
    { mask := mask
      values := writeRows shape (chosenRow table.content keys fun _ => false) values
      counter := if countMisses then keys.countP fun key => !cached key else 0 }
  | .hostMap numParts partitioner =>
    (List.finRange numParts).foldl (findPart table.content keys shape partitioner) ⟨mask, values, 0⟩
  | .hostLinear =>
    { mask := fun i => if i < (keys.length + 63) / 64 * 64 then decide (i < keys.length) else mask i
      values := writeRows shape (chosenRow table.content keys mask) values
      counter := keys.length }

namespace HierarchicalEmbeddingLayer

def deviceId {shape : RowShape} (table : LayerTable w shape) : Option Nat :=
  if table.kind.onGpu then some table.device else none

/-- The checks of the constructor: a GPU table follows only tables of its device, and a default
embedding needs a host table at the end. -/
def Accepts {shape : RowShape} (tables : List (LayerTable w shape))
    (defaultEmbedding : Option (Nat → UInt8)) : Prop :=
  tables ≠ [] ∧
  tables.IsChain (fun previous table => (deviceId table).isSome →
    deviceId table = deviceId previous) ∧
  (defaultEmbedding.isSome → ∀ last ∈ tables.getLast?, last.kind.onGpu = false)

structure LookupCall (w : Nat) where
  numKeys : Nat
  keysPlacement : MemoryType
  outputPlacement : MemoryType
  hitmaskPlacement : Option MemoryType
  keyMemory : Mirror → Nat → BitVec w
  outputMemory : Mirror → Nat → UInt8
  maskMemory : Mirror → Nat → Bool

def LookupCall.keys (call : LookupCall w) : List (BitVec w) :=
  (List.range call.numKeys).map (call.keyMemory .caller)

structure LookupState (w : Nat) where
  keys : BufferWrapper (BitVec w)
  hitmask : BufferWrapper Bool
  output : BufferWrapper UInt8
  counters : List Nat

variable {shape : RowShape}

def firstOnGpu (tables : List (LayerTable w shape)) : Bool :=
  tables.head?.any fun table => table.kind.onGpu

def lastOnHost (tables : List (LayerTable w shape)) : Bool :=
  tables.getLast?.any fun table => !table.kind.onGpu

/-- Without a hit mask of the caller there is one on the side of the first table. -/
def maskPlacement (tables : List (LayerTable w shape)) (call : LookupCall w) : MemoryType :=
  call.hitmaskPlacement.getD (if firstOnGpu tables then .device else .host)

def startState (tables : List (LayerTable w shape)) (call : LookupCall w) : LookupState w :=
  let maskSize := (call.numKeys + 63) / 64 * 64
  let hitmask := BufferWrapper.create false (maskPlacement tables call) maskSize call.maskMemory
  { keys := BufferWrapper.create true call.keysPlacement call.numKeys call.keyMemory
    hitmask := hitmask.write .caller (blit (call.maskMemory .caller) 0 maskSize fun _ => false)
    output :=
      BufferWrapper.create false call.outputPlacement
        (call.numKeys * shape.stride) call.outputMemory
    counters := [] }

/-- `find` of one table on the wrappers of the lookup. Without keys a map table returns at once,
a linear one throws. -/
def tableFind (numKeys : Nat) (state : LookupState w) (table : LayerTable w shape) :
    Option (LookupState w) :=
  let memType := if table.kind.onGpu then MemoryType.device else .unregistered
  match table.kind, numKeys with
  | .hostMap _ _, 0 => some { state with counters := state.counters ++ [0] }
  | .hostLinear, 0 => none
  | _, _ =>
    (state.keys.accessBuffer memType true).bind fun keys =>
    (state.hitmask.accessBuffer memType true).bind fun hitmask =>
    (state.output.accessBuffer memType false).map fun output =>
      let found :=
        table.find ((List.range numKeys).map (keys.2.memory keys.1)) (hitmask.2.memory hitmask.1)
        (output.2.memory output.1)
      { keys := keys.2
        hitmask := hitmask.2.write hitmask.1 found.mask
        output := output.2.write output.1 found.values
        counters := state.counters ++ [found.counter] }

def findTables (numKeys : Nat) (tables : List (LayerTable w shape)) (state : LookupState w) :
    Option (LookupState w) :=
  tables.foldlM (tableFind numKeys) state

/-- Hits of a table and the rate given to its insert heuristic; a division by zero has no value. -/
structure HitAccount where
  hits : Int
  rate : Option ℚ
  deriving DecidableEq

def accountHits : List (Bool × Nat) → Int → List HitAccount × Int
  | [], left => ([], left)
  | (countsHits, counter) :: rest, left =>
    let hits : Int := if countsHits then counter else left - counter
    let account : HitAccount := ⟨hits, if left = 0 then none else some (hits / left)⟩
    let later := accountHits rest (left - hits)
    (account :: later.1, later.2)

def fillDefault (shape : RowShape) (defaultEmbedding : Option (Nat → UInt8)) (left : Int)
    (numKeys : Nat)
    (state : LookupState w) : Option (LookupState w) :=
  match defaultEmbedding with
  | none => some state
  | some row =>
    if 0 < left then
      (state.hitmask.accessBuffer .unregistered true).bind fun hitmask =>
      (state.output.accessBuffer .unregistered true).map fun output =>
        let missing := fun i =>
          if i < numKeys ∧ hitmask.2.memory hitmask.1 i = false then some row else none
        { state with
          hitmask := hitmask.2
          output := output.2.write output.1 (writeRows shape missing (output.2.memory output.1)) }
    else some state

/-- The rows that the scatter goes through; a negative number of them starts no thread. -/
def scatterIndices (numKeys : Nat) : Nat := if wrap32 numKeys < 2 ^ 31 then wrap32 numKeys else 0

/-- `EmbeddingForwardScatter`. Sizes are narrowed to 32 bits, and so are the offsets computed from
them. There is no kernel for odd rows. -/
def embeddingForwardScatter (shape : RowShape) (numKeys : Nat) (source : Nat → UInt8)
    (mask : Nat → Bool) (target : Nat → UInt8) : Nat → UInt8 :=
  if wrap32 shape.width % 2 = 0 then
    (List.range (scatterIndices numKeys)).foldl (fun memory i =>
      if mask i then memory
      else
        let offset := wrap32 (i * wrap32 shape.stride)
        blit memory offset (wrap32 shape.width) fun o => source (offset + o)) target
  else target

/-- The host side of the scatter: memory that is not registered is copied first. -/
def scatterSource (output : BufferWrapper UInt8) : Option (Mirror × BufferWrapper UInt8) :=
  match output.getBuffer .host with
  | some mirror => some (mirror, output)
  | none => output.accessBuffer .host true

/-- Rows resolved on the host go to the device, if there are tables on both sides: those that the
device mask does not have. -/
def combineHits (shape : RowShape) (bothSides : Bool) (numKeys : Nat) (state : LookupState w) :
    Option (LookupState w) :=
  if bothSides then
    (scatterSource state.output).bind fun host =>
    (host.2.accessBuffer .device false).bind fun device =>
    (state.hitmask.getBuffer .device).map fun mask =>
      { state with output :=
        device.2.write device.1 (embeddingForwardScatter shape numKeys (device.2.memory host.1)
          (state.hitmask.memory mask) (device.2.memory device.1)) }
  else some state

def copyBack {β : Type*} (wrapper : BufferWrapper β) (final : Mirror) : BufferWrapper β :=
  if final = .caller then wrapper
  else wrapper.write .caller (blit (wrapper.memory .caller) 0 wrapper.size (wrapper.memory final))

structure LookupResult (w : Nat) where
  output : Nat → UInt8
  hitmask : Option (Nat → Bool)
  accounts : List HitAccount
  hitrates : List ℚ
  left : Int
  state : LookupState w

/-- `lookup` without pooling, up to the automatic inserts. -/
def lookup (tables : List (LayerTable w shape)) (defaultEmbedding : Option (Nat → UInt8))
    (call : LookupCall w) :
    Option (LookupResult w) :=
  (findTables call.numKeys tables (startState tables call)).bind fun found =>
  let account :=
    accountHits ((tables.map fun table => table.kind.countsHits).zip found.counters) call.numKeys
  (fillDefault shape defaultEmbedding account.2 call.numKeys found).bind fun filled =>
  -- both pointers are taken before the hits are combined
  let hostOutput := (filled.output.getBuffer .host).or (filled.output.getBuffer .unregistered)
  let deviceOutput := filled.output.getBuffer .device
  (combineHits shape (firstOnGpu tables && lastOnHost tables) call.numKeys filled).bind
    fun combined =>
  (if tables.any (fun table => table.kind.onGpu) then deviceOutput else hostOutput).bind
    fun finalOutput =>
  (combined.hitmask.getBuffer combined.hitmask.lastAccess).map fun finalHitmask =>
    let output := copyBack combined.output finalOutput
    let hitmask := if call.hitmaskPlacement.isSome then copyBack combined.hitmask finalHitmask
      else combined.hitmask
    { output := output.memory .caller
      hitmask := call.hitmaskPlacement.map fun _ => hitmask.memory .caller
      accounts := account.1
      hitrates := account.1.map fun account => account.hits / call.numKeys
      left := account.2
      state := { combined with output := output, hitmask := hitmask } }

end HierarchicalEmbeddingLayer

end EmbedCache
