import EmbedCache.Lib.Partitioned
import EmbedCache.Lib.SlotPool
import EmbedCache.HostTable

/-! `STLContainerTable` (`stl_map_backed_table.hpp`, `stl_map_backed_table_detail.hpp`): modify
calls.

A partition is a map from keys to slots in buffers of its own. A slot has the row of its key and,
behind it, the metadata of the overflow handler. Slots of erased and evicted keys are used again. -/

namespace EmbedCache.STLContainerTable

open Lib HostTable

structure STLContainerTableConfig where
  maxValueSize : Nat
  valueDtype : DataTypeT
  numPartitions : Nat
  partitioner : Partitioner
  maxFindTaskSize : Nat
  valueAlignment : Nat
  allocationRate : Nat
  prefetchValues : Bool
  overflowPolicy : OverflowPolicyConfig

namespace STLContainerTableConfig

variable (config : STLContainerTableConfig)

/-- `check`, and the range of `int64_t`. -/
structure Checked : Prop where
  maxValueSize_pos : 0 < config.maxValueSize
  maxValueSize_le : config.maxValueSize ≤ 2 ^ 31 - 1 - 4
  whole_elements : config.maxValueSize % config.valueDtype.size = 0
  numPartitions_pow : ∃ e ≤ 62, config.numPartitions = 2 ^ e
  maxFindTaskSize_pos : 0 < config.maxFindTaskSize
  maxFindTaskSize_lt : config.maxFindTaskSize < 2 ^ 63
  valueAlignment_pow : ∃ e ≤ 62, config.valueAlignment = 2 ^ e
  allocationRate_ge : config.maxValueSize ≤ config.allocationRate
  allocationRate_lt : config.allocationRate < 2 ^ 63

def metaSize : Nat := config.overflowPolicy.handler.metaSize

def slotSize : Nat := config.maxValueSize + config.metaSize

/-- `next_aligned(slot_size(), value_alignment)`. -/
def slotStride : Nat :=
  (config.slotSize + config.valueAlignment - 1) / config.valueAlignment * config.valueAlignment

def slotsPerBuffer : Nat := config.allocationRate / config.slotStride

variable {config}

theorem Checked.numPartitions_pos (checked : config.Checked) : 0 < config.numPartitions := by
  obtain ⟨e, -, power⟩ := checked.numPartitions_pow
  rw [power]
  exact Nat.two_pow_pos e

theorem Checked.slotSize_le_slotStride (checked : config.Checked) :
    config.slotSize ≤ config.slotStride := by
  obtain ⟨e, -, power⟩ := checked.valueAlignment_pow
  have alignment : 0 < config.valueAlignment := by
    rw [power]
    exact Nat.two_pow_pos e
  have division :=
    Nat.div_add_mod (config.slotSize + config.valueAlignment - 1) config.valueAlignment
  have rest := Nat.mod_lt (config.slotSize + config.valueAlignment - 1) alignment
  rw [slotStride, Nat.mul_comm]
  omega

theorem Checked.slotStride_pos (checked : config.Checked) : 0 < config.slotStride :=
  lt_of_lt_of_le (Nat.add_pos_left checked.maxValueSize_pos _) checked.slotSize_le_slotStride

end STLContainerTableConfig

structure Slot where
  buffer : Nat
  off : Nat
  deriving DecidableEq, Repr

/-- `slot_map` and `available_slots` are the two sides of the pool, `slot_buffers` is the number of
buffers. -/
structure Partition (Key : Type*) where
  pool : SlotPool Key Slot
  slotBuffers : Nat
  bytes : Nat → Nat → UInt8

namespace Partition

variable {Key : Type*} [DecidableEq Key] (config : STLContainerTableConfig) (part : Partition Key)

def slotMap : AList fun _ : Key => Slot := part.pool.held

def availableSlots : List Slot := part.pool.free

def empty : Partition Key := ⟨SlotPool.empty, 0, fun _ _ => 0⟩

def size : Nat := part.slotMap.entries.length

variable (slot : Slot)

def write (start size : Nat) (source : Nat → UInt8) : Partition Key :=
  { part with
    bytes := Function.update part.bytes slot.buffer
      (blit (part.bytes slot.buffer) (slot.off + start) size source) }

def row : List UInt8 :=
  readRange (part.bytes slot.buffer) slot.off config.maxValueSize

def metadata : BitVec 64 :=
  ofLittleEndian 8 fun i => part.bytes slot.buffer (slot.off + config.maxValueSize + i)

def setMetadata (value : BitVec 64) : Partition Key :=
  part.write slot config.maxValueSize config.metaSize (littleEndian value.toNat)

/-! ### Erase -/

def erase (key : Key) : Partition Key :=
  match part.slotMap.lookup key with
  | none => part
  | some slot => { part with pool := part.pool.release key slot }

/-! ### Insert -/

variable (shuffle : Shuffle (Key × Slot))

def keysSlots (part : Partition Key) : List (Key × Slot) :=
  let entries := shuffle.order (part.slotMap.entries.map fun entry => (entry.1, entry.2))
  match config.overflowPolicy.handler with
  | .evictRandom => entries
  | _ => entries.mergeSort fun a b =>
    (part.metadata config a.2).toInt ≤ (part.metadata config b.2).toInt

/-- How many entries lie before `keys_slots.end() - resolution_margin`. -/
def evictedCount : Nat := part.size - config.overflowPolicy.resolution

def resolveOverflow (part : Partition Key) : Partition Key :=
  let entries := part.keysSlots config shuffle
  let mid := part.evictedCount config
  let evicted := { part with pool := part.pool.releaseMany (entries.take mid) }
  match config.overflowPolicy.handler with
  | .evictLFU => (entries.drop mid).foldl
      (fun part entry => part.setMetadata config entry.2
        (BitVec.ofInt 64 ((part.metadata config entry.2).toInt.tdiv 2))) evicted
  | _ => evicted

def bufferSlots (buffer : Nat) : List Slot :=
  (List.range config.slotsPerBuffer).map fun i => ⟨buffer, i * config.slotStride⟩

def allocate : Partition Key where
  pool := part.pool.grow (bufferSlots config part.slotBuffers)
  slotBuffers := part.slotBuffers + 1
  bytes := Function.update part.bytes part.slotBuffers fun _ => 0

/-- The last available slot is filled and goes to the key; there must be one for `back()`. -/
def emplace (lruValue : BitVec 64) (valueSize : Nat) (key : Key) (value : Nat → UInt8)
    (part : Partition Key) :
    Option (Partition Key) :=
  match part.availableSlots with
  | [] => none
  | slot :: rest =>
    let filled := (part.write slot 0 valueSize value).setMetadata config slot
      (config.overflowPolicy.handler.initial lruValue)
    some { filled with pool := filled.pool.hold key slot rest }

def insert (lruValue : BitVec 64) (valueSize : Nat) (key : Key) (value : Nat → UInt8)
    (part : Partition Key) :
    Option (Partition Key) :=
  match part.slotMap.lookup key with
  | some slot => some (part.write slot 0 valueSize value)
  | none =>
    let resolved :=
      if config.overflowPolicy.overflowMargin ≤ part.size then part.resolveOverflow config shuffle
      else part
    let grown := if resolved.availableSlots.isEmpty then resolved.allocate config else resolved
    grown.emplace config lruValue valueSize key value

/-! ### Update -/

def update (valueSize : Nat) (key : Key) (value : Nat → UInt8) (part : Partition Key) :
    Partition Key :=
  match part.slotMap.lookup key with
  | none => part
  | some slot => part.write slot 0 valueSize value

def updateAccumulate (add : Arithmetic) (updateDtype : DataTypeT) (updateSize : Int) (key : Key)
    (value : Nat → UInt8)
    (part : Partition Key) : Partition Key :=
  match part.slotMap.lookup key with
  | none => part
  | some slot =>
    { part with
      bytes := Function.update part.bytes slot.buffer
        (cpuUpdateKernel add config.valueDtype updateDtype
          (elementCount updateDtype updateSize) value
          (part.bytes slot.buffer) slot.off) }

end Partition

end EmbedCache.STLContainerTable
