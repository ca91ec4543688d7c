import EmbedCache.StlTable

/-! Slots of a partition of `STLContainerTable`: none is lost or used twice, and what is written to
one leaves the rows of the others alone. -/

namespace EmbedCache.STLContainerTable

open Lib HostTable List Function AList
open Option (map_some)

def patch (size : Nat) (value : Nat → UInt8) (row : List UInt8) : List UInt8 :=
  readRange (blit (fun i => row.getD i 0) 0 size value) 0 row.length

def accumulated (add : Arithmetic) (tableType updateType : DataTypeT) (updateSize : Int)
    (value : Nat → UInt8)
    (row : List UInt8) : List UInt8 :=
  readRange (cpuUpdateKernel add tableType updateType (elementCount updateType updateSize) value
    (fun i => row.getD i 0) 0) 0 row.length

theorem readRange_getD (memory : Nat → UInt8) (off size : Nat) {i : Nat} (inside : i < size) :
    (readRange memory off size).getD i 0 = memory (off + i) := by
  rw [getD_eq_getElem?_getD, readRange, List.getElem?_map, List.getElem?_range inside]
  rfl

variable {size : Nat}

theorem patch_readRange (memory : Nat → UInt8) (off width : Nat) (value : Nat → UInt8) :
    readRange (blit memory off size value) off width =
      patch size value (readRange memory off width) := by
  rw [patch, readRange_length]
  apply readRange_congr
  intro i inside
  by_cases written : i < size
  · rw [blit_inside _ _ _ _ _ (by omega) (by omega), blit_inside _ _ _ _ _ (by omega) (by omega)]
    congr 1
    omega
  · rw [blit_outside _ _ _ _ _ (by omega), blit_outside _ _ _ _ _ (by omega), Nat.zero_add,
      readRange_getD memory off width inside]

theorem patch_length (size : Nat) (value : Nat → UInt8) (row : List UInt8) :
    (patch size value row).length = row.length :=
  readRange_length _ _ _

theorem patch_full (value : Nat → UInt8) {row : List UInt8} (whole : row.length = size) :
    patch size value row = readRange value 0 size := by
  rw [patch, whole]
  exact readRange_blit_same _ _ _ _

namespace Partition

variable {Key : Type*} [DecidableEq Key] {config : STLContainerTableConfig}

variable (config) in
def allocated (buffers : Nat) : List Slot := (List.range buffers).flatMap (bufferSlots config)

variable {slot : Slot}

theorem mem_allocated {buffers : Nat} :
    slot ∈ allocated config buffers ↔
      slot.buffer < buffers ∧ ∃ i < config.slotsPerBuffer, slot.off = i * config.slotStride := by
  simp only [allocated, bufferSlots, mem_flatMap, mem_range, mem_map]
  constructor
  · rintro ⟨buffer, below, i, inside, rfl⟩
    exact ⟨below, i, inside, rfl⟩
  · rintro ⟨below, i, inside, place⟩
    exact ⟨slot.buffer, below, i, inside, by rw [← place]⟩

theorem allocated_apart {buffers : Nat} {slot other : Slot}
    (first : slot ∈ allocated config buffers)
    (second : other ∈ allocated config buffers) (different : slot ≠ other)
    (sameBuffer : slot.buffer = other.buffer) :
    slot.off + config.slotStride ≤ other.off ∨ other.off + config.slotStride ≤ slot.off := by
  obtain ⟨-, i, -, place⟩ := mem_allocated.mp first
  obtain ⟨-, j, -, otherPlace⟩ := mem_allocated.mp second
  have indices : i ≠ j := by
    rintro rfl
    apply different
    cases slot
    cases other
    simp_all
  rw [place, otherPlace]
  exact rows_apart le_rfl indices

theorem bufferSlots_nodup (positive : 0 < config.slotStride) (buffer : Nat) :
    (bufferSlots config buffer).Nodup := by
  apply List.Nodup.map _ nodup_range
  intro i j same
  have offsets : i * config.slotStride = j * config.slotStride := congrArg Slot.off same
  exact Nat.eq_of_mul_eq_mul_right positive offsets

theorem allocated_nodup (positive : 0 < config.slotStride) (buffers : Nat) :
    (allocated config buffers).Nodup := by
  apply nodup_flatMap.mpr
  refine ⟨fun buffer _ => bufferSlots_nodup positive buffer, ?_⟩
  apply List.Pairwise.imp _ pairwise_lt_range
  intro buffer other less slot member otherMember
  obtain ⟨i, -, rfl⟩ := mem_map.mp member
  obtain ⟨j, -, same⟩ := mem_map.mp otherMember
  have buffers : other = buffer := congrArg Slot.buffer same
  omega

theorem allocated_succ (buffers : Nat) :
    allocated config (buffers + 1) = allocated config buffers ++ bufferSlots config buffers := by
  simp [allocated, range_succ]

variable (config) in
/-- The slots are those of the buffers, and the keys are those the partitioner sends here. -/
structure WellFormed (home : Key → Nat) (task : Nat) (part : Partition Key) : Prop where
  slots : part.pool.slots.Perm (allocated config part.slotBuffers)
  homed : ∀ key ∈ part.slotMap, home key = task

variable (config) in
def get (part : Partition Key) (key : Key) : Option (List UInt8) :=
  (part.slotMap.lookup key).map (part.row config)

variable {part : Partition Key} {home : Key → Nat}

omit [DecidableEq Key] in
theorem WellFormed.slots_nodup {task : Nat} (checked : config.Checked)
    (formed : part.WellFormed config home task) :
    part.pool.slots.Nodup :=
  formed.slots.nodup_iff.mpr (allocated_nodup checked.slotStride_pos _)

variable {key : Key}

theorem WellFormed.held_allocated {task : Nat} (formed : part.WellFormed config home task)
    (found : part.slotMap.lookup key = some slot) :
    slot ∈ allocated config part.slotBuffers :=
  formed.slots.mem_iff.mp (SlotPool.held_mem_slots found)

/-! ### Writes to one slot -/

section Writes

variable (part : Partition Key) {slot other : Slot}

omit [DecidableEq Key]

theorem write_bytes (start size : Nat) (source : Nat → UInt8) :
    (part.write slot start size source).bytes slot.buffer =
      blit (part.bytes slot.buffer) (slot.off + start) size source :=
  update_self _ _ _

theorem row_write (size : Nat) (value : Nat → UInt8) :
    (part.write slot 0 size value).row config slot = patch size value (part.row config slot) := by
  rw [row, row, write_bytes, Nat.add_zero]
  exact patch_readRange _ _ _ _

section

variable (checked : config.Checked) {buffers : Nat} (first : slot ∈ allocated config buffers)
  (second : other ∈ allocated config buffers)

include checked first second

theorem row_update_other (different : slot ≠ other) {bytes : Nat → UInt8}
    (inside : ∀ a, a < slot.off ∨ slot.off + config.slotStride ≤ a →
      bytes a = part.bytes slot.buffer a) :
    ({ part with bytes := Function.update part.bytes slot.buffer bytes } : Partition Key).row
      config other =
      part.row config other := by
  have wide := checked.slotSize_le_slotStride
  have behind : config.maxValueSize ≤ config.slotSize := Nat.le_add_right _ _
  by_cases sameBuffer : slot.buffer = other.buffer
  · have apart := allocated_apart first second different sameBuffer
    rw [row, row]
    dsimp only
    rw [← sameBuffer, update_self]
    apply readRange_congr
    intro i below
    apply inside
    omega
  · rw [row, row]
    dsimp only
    rw [update_of_ne (Ne.symm sameBuffer)]

theorem row_write_other (different : slot ≠ other) {start size : Nat}
    (fits : start + size ≤ config.slotStride) (source : Nat → UInt8) :
    (part.write slot start size source).row config other = part.row config other := by
  apply row_update_other part checked first second different
  intro a outside
  exact blit_outside _ _ _ _ _ (by omega)

theorem row_setMetadata (value : BitVec 64) :
    (part.setMetadata config slot value).row config other = part.row config other := by
  by_cases same : slot = other
  · subst same
    rw [row, row, setMetadata, write_bytes]
    exact readRange_blit_disjoint _ _ _ _ _ _ (.inl (le_refl _))
  · exact row_write_other part checked first second same checked.slotSize_le_slotStride _

end

end Writes

structure SameRows (config : STLContainerTableConfig) (part other : Partition Key) : Prop where
  pool : other.pool = part.pool
  slotBuffers : other.slotBuffers = part.slotBuffers
  rows : ∀ slot ∈ allocated config part.slotBuffers, other.row config slot = part.row config slot

omit [DecidableEq Key] in
theorem SameRows.refl (part : Partition Key) : SameRows config part part :=
  ⟨rfl, rfl, fun _ _ => rfl⟩

omit [DecidableEq Key] in
theorem SameRows.trans {first second third : Partition Key} (early : SameRows config first second)
    (late : SameRows config second third) : SameRows config first third where
  pool := late.pool.trans early.pool
  slotBuffers := late.slotBuffers.trans early.slotBuffers
  rows slot member := (late.rows slot (early.slotBuffers ▸ member)).trans (early.rows slot member)

omit [DecidableEq Key] in
theorem SameRows.setMetadata (checked : config.Checked) (part : Partition Key)
    (member : slot ∈ allocated config part.slotBuffers) (value : BitVec 64) :
    SameRows config part (part.setMetadata config slot value) where
  pool := rfl
  slotBuffers := rfl
  rows _ other := row_setMetadata part checked member other value

section

variable {home : Key → Nat} {task : Nat} {part other : Partition Key}
  (same : SameRows config part other) (formed : part.WellFormed config home task)

include same formed

omit [DecidableEq Key] in
theorem SameRows.wellFormed : other.WellFormed config home task where
  slots := by
    rw [same.pool, same.slotBuffers]
    exact formed.slots
  homed := by
    rw [slotMap, same.pool]
    exact formed.homed

theorem SameRows.get : other.get config = part.get config := by
  funext key
  have map : other.slotMap = part.slotMap := congrArg SlotPool.held same.pool
  rw [Partition.get, Partition.get, map]
  cases found : part.slotMap.lookup key with
  | none => rfl
  | some slot => rw [map_some, map_some, same.rows slot (formed.held_allocated found)]

end

theorem get_update_slot (checked : config.Checked) {task : Nat}
    (formed : part.WellFormed config home task)
    (found : part.slotMap.lookup key = some slot) {bytes : Nat → UInt8}
    (inside : ∀ a, a < slot.off ∨ slot.off + config.slotStride ≤ a →
      bytes a = part.bytes slot.buffer a) :
    ({ part with bytes := Function.update part.bytes slot.buffer bytes } : Partition Key).get
      config =
      Function.update (part.get config) key
        (some (readRange bytes slot.off config.maxValueSize)) := by
  funext other
  by_cases same : other = key
  · subst same
    rw [update_self, get]
    change (part.slotMap.lookup other).map _ = _
    rw [found, map_some, row]
    dsimp only
    rw [update_self]
  · rw [update_of_ne same, get, get]
    change (part.slotMap.lookup other).map _ = _
    cases place : part.slotMap.lookup other with
    | none => rfl
    | some elsewhere =>
      have different : slot ≠ elsewhere := by
        rintro rfl
        exact same (SlotPool.held_injective (formed.slots_nodup checked) place found)
      rw [map_some, map_some,
        row_update_other part checked (formed.held_allocated found)
          (formed.held_allocated place) different inside]

/-! ### Erase and update -/

section Keys

variable {home : Key → Nat} {task : Nat} {part : Partition Key}

omit [DecidableEq Key] in
theorem WellFormed.empty : (Partition.empty : Partition Key).WellFormed config home task where
  slots := List.Perm.refl _
  homed key member := absurd member (notMem_empty key)

theorem WellFormed.erase (formed : part.WellFormed config home task) (key : Key) :
    (part.erase key).WellFormed config home task := by
  rw [Partition.erase]
  split
  · exact formed
  · rename_i slot found
    refine ⟨(SlotPool.release_slots found).trans formed.slots, ?_⟩
    intro other member
    exact formed.homed other (mem_erase.mp member).2

theorem get_erase (part : Partition Key) (key : Key) :
    (part.erase key).get config = Function.update (part.get config) key none := by
  funext other
  rw [Partition.erase]
  split
  · rename_i absent
    by_cases same : other = key
    · subst same
      rw [update_self, get, absent]
      rfl
    · rw [update_of_ne same]
  · by_cases same : other = key
    · subst same
      rw [update_self, get]
      change ((part.slotMap.erase other).lookup other).map _ = _
      rw [lookup_erase]
      rfl
    · rw [update_of_ne same, get, get]
      change ((part.slotMap.erase key).lookup other).map _ = _
      rw [lookup_erase_ne same]
      rfl

theorem get_absent (absent : part.slotMap.lookup key = none) (change : List UInt8 → List UInt8) :
    part.get config = Function.update (part.get config) key ((part.get config key).map change) := by
  have nothing : part.get config key = none := by
    rw [get, absent]
    rfl
  rw [nothing, Option.map_none, ← nothing, update_eq_self]

theorem get_update (checked : config.Checked) (formed : part.WellFormed config home task)
    (inside : size ≤ config.maxValueSize) (key : Key) (value : Nat → UInt8) :
    (part.update size key value).get config =
      Function.update (part.get config) key ((part.get config key).map (patch size value)) := by
  rw [update]
  split
  · rename_i absent
    exact get_absent absent _
  · rename_i slot found
    have present : part.get config key = some (part.row config slot) := by rw [get, found, map_some]
    have wide := checked.slotSize_le_slotStride
    have behind : config.maxValueSize ≤ config.slotSize := Nat.le_add_right _ _
    have written := get_update_slot checked formed found
      (fun a outside =>
        blit_outside (part.bytes slot.buffer) value (slot.off + 0) size a (by omega))
    rw [present, map_some, ← row_write, row, write_bytes]
    exact written

theorem get_updateAccumulate (checked : config.Checked) (formed : part.WellFormed config home task)
    (add : Arithmetic)
    {updateDtype : DataTypeT} {updateSize : Int}
    (fits : elementCount updateDtype updateSize * config.valueDtype.size ≤ config.maxValueSize)
    (key : Key)
    (value : Nat → UInt8) :
    (part.updateAccumulate config add updateDtype updateSize key value).get config =
      Function.update (part.get config) key
        ((part.get config key).map
          (accumulated add config.valueDtype updateDtype updateSize value)) := by
  rw [updateAccumulate]
  split
  · rename_i absent
    exact get_absent absent _
  · rename_i slot found
    have present : part.get config key = some (part.row config slot) := by rw [get, found, map_some]
    have wide := checked.slotSize_le_slotStride
    have behind : config.maxValueSize ≤ config.slotSize := Nat.le_add_right _ _
    rw [present, map_some]
    refine (get_update_slot checked formed found fun a outside =>
      cpuUpdateKernel_outside _ _ _ _ (by omega)).trans ?_
    congr 2
    rw [accumulated, row, readRange_length]
    apply readRange_congr
    intro i inside
    apply cpuUpdateKernel_congr add _ _ value fits _ inside
    intro j below
    rw [Nat.zero_add, readRange_getD _ _ _ below]

theorem WellFormed.update (formed : part.WellFormed config home task) (size : Nat) (key : Key)
    (value : Nat → UInt8) :
    (part.update size key value).WellFormed config home task := by
  rw [Partition.update]
  split <;> exact ⟨formed.slots, formed.homed⟩

theorem WellFormed.updateAccumulate (formed : part.WellFormed config home task) (add : Arithmetic)
    (updateDtype : DataTypeT)
    (updateSize : Int) (key : Key) (value : Nat → UInt8) :
    (part.updateAccumulate config add updateDtype updateSize key value).WellFormed config
      home task := by
  rw [Partition.updateAccumulate]
  split <;> exact ⟨formed.slots, formed.homed⟩

/-! ### Overflow -/

variable (shuffle : Shuffle (Key × Slot))

omit [DecidableEq Key] in
theorem keysSlots_perm (part : Partition Key) :
    (part.keysSlots config shuffle).Perm (part.slotMap.entries.map fun entry =>
      (entry.1, entry.2)) := by
  rw [keysSlots]
  split
  · exact shuffle.perm _
  · exact (mergeSort_perm _ _).trans (shuffle.perm _)

omit [DecidableEq Key] in
theorem keysSlots_length (part : Partition Key) :
    (part.keysSlots config shuffle).length = part.size := by
  rw [(keysSlots_perm shuffle part).length_eq, length_map, size]

theorem keysSlots_found {entry : Key × Slot} (member : entry ∈ part.keysSlots config shuffle) :
    part.slotMap.lookup entry.1 = some entry.2 := by
  obtain ⟨original, inside, rfl⟩ := mem_map.mp ((keysSlots_perm shuffle part).mem_iff.mp member)
  exact mem_lookup_iff.mpr inside

omit [DecidableEq Key] in
theorem keysSlots_nodup (part : Partition Key) :
    ((part.keysSlots config shuffle).map Prod.fst).Nodup := by
  rw [((keysSlots_perm shuffle part).map Prod.fst).nodup_iff, map_map]
  exact part.slotMap.keys_nodup

variable (config) in
def evictedKeys (part : Partition Key) : List Key :=
  ((part.keysSlots config shuffle).take (part.evictedCount config)).map Prod.fst

omit [DecidableEq Key] in
theorem evictedKeys_nodup (part : Partition Key) : (part.evictedKeys config shuffle).Nodup :=
  (keysSlots_nodup shuffle part).sublist ((take_sublist _ _).map Prod.fst)

omit [DecidableEq Key] in
theorem evictedKeys_length (part : Partition Key) :
    (part.evictedKeys config shuffle).length = part.evictedCount config := by
  rw [evictedKeys, length_map, length_take, keysSlots_length]
  exact min_eq_left (Nat.sub_le _ _)

theorem evictedKeys_mem (member : key ∈ part.evictedKeys config shuffle) : key ∈ part.slotMap := by
  obtain ⟨entry, inside, rfl⟩ := mem_map.mp member
  exact lookup_isSome.mp (by rw [keysSlots_found shuffle (mem_of_mem_take inside)]; rfl)

omit [DecidableEq Key] in
theorem sameRows_halved (checked : config.Checked) (value : Partition Key → Key × Slot → BitVec 64)
    (entries : List (Key × Slot)) (part : Partition Key)
    (held : ∀ entry ∈ entries, entry.2 ∈ allocated config part.slotBuffers) :
    SameRows config part
      (entries.foldl (fun part entry => part.setMetadata config entry.2 (value part entry))
      part) := by
  induction entries generalizing part with
  | nil => exact SameRows.refl part
  | cons entry rest ih =>
    have first := SameRows.setMetadata checked part (held entry mem_cons_self) (value part entry)
    have later : ∀ other ∈ rest,
        other.2 ∈ allocated config
        (part.setMetadata config entry.2 (value part entry)).slotBuffers :=
      fun other member => held other (mem_cons_of_mem _ member)
    exact first.trans (ih _ later)

section

variable (checked : config.Checked) (formed : part.WellFormed config home task)

include checked formed

/-- The evicted keys are given up; nothing else is seen of the resolution. -/
theorem resolveOverflow_sameRows :
    SameRows config
      { part with pool :=
        part.pool.releaseMany ((part.keysSlots config shuffle).take (part.evictedCount config)) }
      (part.resolveOverflow config shuffle) := by
  rw [resolveOverflow]
  split
  · apply sameRows_halved checked
    intro entry member
    exact formed.held_allocated (keysSlots_found shuffle (mem_of_mem_drop member))
  · exact SameRows.refl _

theorem resolveOverflow_slotMap :
    (part.resolveOverflow config shuffle).slotMap =
      (part.evictedKeys config shuffle).foldl (fun map key => map.erase key) part.slotMap := by
  have pool := (resolveOverflow_sameRows shuffle checked formed).pool
  rw [slotMap, pool]
  exact SlotPool.releaseMany_held _

theorem WellFormed.resolveOverflow :
    (part.resolveOverflow config shuffle).WellFormed config home task := by
  have same := resolveOverflow_sameRows shuffle checked formed
  constructor
  · rw [same.pool, same.slotBuffers]
    refine (SlotPool.releaseMany_slots (evictedKeys_nodup shuffle part) ?_).trans formed.slots
    intro entry member
    exact keysSlots_found shuffle (mem_of_mem_take member)
  · intro key member
    rw [resolveOverflow_slotMap shuffle checked formed, ← lookup_isSome, lookup_eraseMany] at member
    split at member
    · simp at member
    · exact formed.homed key (lookup_isSome.mp member)

theorem get_resolveOverflow (key : Key) :
    (part.resolveOverflow config shuffle).get config key =
      if key ∈ part.evictedKeys config shuffle then none else part.get config key := by
  rw [get, get, resolveOverflow_slotMap shuffle checked formed, lookup_eraseMany]
  split
  · rfl
  · cases found : part.slotMap.lookup key with
    | none => rfl
    | some slot =>
      rw [map_some, map_some,
        (resolveOverflow_sameRows shuffle checked formed).rows slot (formed.held_allocated found)]
      rfl

theorem size_resolveOverflow :
    (part.resolveOverflow config shuffle).size =
      min part.size config.overflowPolicy.resolution := by
  have present : ∀ key ∈ part.evictedKeys config shuffle, key ∈ part.slotMap := fun key member =>
    evictedKeys_mem shuffle member
  have count := length_eraseMany (evictedKeys_nodup shuffle part) present
  rw [evictedKeys_length, ← resolveOverflow_slotMap shuffle checked formed, evictedCount] at count
  simp only [size] at count ⊢
  omega

end

/-! ### Insert -/

omit [DecidableEq Key] in
theorem WellFormed.allocate (formed : part.WellFormed config home task) :
    (part.allocate config).WellFormed config home task where
  slots := by
    rw [Partition.allocate, SlotPool.grow_slots, allocated_succ]
    exact perm_append_comm.trans (formed.slots.append_right _)
  homed := formed.homed

theorem get_allocate (formed : part.WellFormed config home task) :
    (part.allocate config).get config = part.get config := by
  funext key
  rw [get, get]
  change (part.slotMap.lookup key).map _ = _
  cases found : part.slotMap.lookup key with
  | none => rfl
  | some slot =>
    have older : slot.buffer ≠ part.slotBuffers :=
      (mem_allocated.mp (formed.held_allocated found)).1.ne
    rw [map_some, map_some, row, row, Partition.allocate]
    dsimp only
    rw [update_of_ne older]

omit [DecidableEq Key] in
theorem allocate_availableSlots (some_slots : 0 < config.slotsPerBuffer) :
    (part.allocate config).availableSlots ≠ [] := by
  have fresh : (bufferSlots config part.slotBuffers).length =
      config.slotsPerBuffer := by simp [bufferSlots]
  intro none_left
  have lengths := congrArg List.length none_left
  simp only [availableSlots, Partition.allocate, SlotPool.grow, length_append, length_nil,
    fresh] at lengths
  omega

theorem emplace_spec (checked : config.Checked) (formed : part.WellFormed config home task)
    (available : part.availableSlots ≠ []) (lruValue : BitVec 64)
    (inside : size ≤ config.maxValueSize)
    (own : home key = task) (new : part.slotMap.lookup key = none) (value : Nat → UInt8) :
    ∃ result, part.emplace config lruValue size key value = some result ∧
      result.WellFormed config home task ∧
      result.size = part.size + 1 ∧
      ∃ garbage : List UInt8, garbage.length = config.maxValueSize ∧
        result.get config = Function.update (part.get config) key
          (some (patch size value garbage)) := by
  obtain ⟨slot, rest, next⟩ := exists_cons_of_ne_nil available
  have free : slot ∈ part.pool.free := by
    change slot ∈ part.availableSlots
    rw [next]
    exact mem_cons_self
  have member : slot ∈ allocated config part.slotBuffers :=
    formed.slots.mem_iff.mp (mem_append_left _ free)
  have absent : key ∉ part.pool.held := lookup_eq_none.mp new
  have wide := checked.slotSize_le_slotStride
  have behind : config.maxValueSize ≤ config.slotSize := Nat.le_add_right _ _
  let filled :=
    (part.write slot 0 size value).setMetadata config slot
      (config.overflowPolicy.handler.initial lruValue)
  have behindRow : ∀ other ∈ allocated config part.slotBuffers,
      filled.row config other = (part.write slot 0 size value).row config other :=
        fun other inside =>
    row_setMetadata _ checked member inside _
  refine ⟨{ filled with pool := filled.pool.hold key slot rest }, ?_,
    ⟨?_, ?_⟩, ?_, part.row config slot, readRange_length _ _ _,
    ?_⟩
  · rw [emplace, next]
  · exact (SlotPool.hold_slots absent next).trans formed.slots
  · intro other present
    rcases (mem_insert _).mp present with same | earlier
    · rw [same, own]
    · exact formed.homed other earlier
  · have entries : (part.slotMap.insert key slot).entries = ⟨key, slot⟩ :: part.slotMap.entries :=
      entries_insert_of_notMem absent
    exact congrArg List.length entries
  · funext other
    rw [get]
    change ((part.slotMap.insert key slot).lookup other).map (filled.row config) = _
    by_cases same : other = key
    · subst same
      rw [lookup_insert, map_some, update_self, behindRow slot member, row_write]
    · rw [lookup_insert_ne same, update_of_ne same, get]
      cases found : part.slotMap.lookup other with
      | none => rfl
      | some elsewhere =>
        have different : slot ≠ elsewhere :=
          SlotPool.free_ne_held (formed.slots_nodup checked) free found
        have held := formed.held_allocated found
        rw [map_some, map_some, behindRow elsewhere held,
          row_write_other part checked member held different (by omega)]

variable (config) in
/-- What one key of `insert` does to the rows: the key has a row and its front is replaced, or keys
are dropped if the partition overflows and the key gets a row of which the front is known. -/
inductive InsertEffect (size : Nat) (key : Key) (value : Nat → UInt8)
    (part result : Partition Key) : Prop
  | replaced {row : List UInt8} (present : part.get config key = some row)
    (sizes : result.size = part.size)
      (rows : result.get config = Function.update (part.get config) key
        (some (patch size value row)))
  | added (absent : part.get config key = none) (dropped : List Key) (garbage : List UInt8)
      (overflow : dropped = [] ∨ config.overflowPolicy.overflowMargin ≤ part.size)
      (length : garbage.length = config.maxValueSize)
      (sizes : result.size = 1 + if config.overflowPolicy.overflowMargin ≤ part.size
        then min part.size config.overflowPolicy.resolution else part.size)
      (rows : result.get config =
        Function.update (fun other => if other ∈ dropped then none else part.get config other) key
          (some (patch size value garbage)))

theorem insert_spec (checked : config.Checked) (some_slots : 0 < config.slotsPerBuffer)
    (formed : part.WellFormed config home task) (lruValue : BitVec 64)
    (inside : size ≤ config.maxValueSize)
    (own : home key = task) (value : Nat → UInt8) :
    ∃ result, part.insert config shuffle lruValue size key value = some result ∧
      result.WellFormed config home task ∧
      InsertEffect config size key value part result := by
  rw [insert]
  split
  · rename_i slot found
    have updated : part.update size key value =
        part.write slot 0 size value := by rw [update, found]
    have present : part.get config key = some (part.row config slot) := by rw [get, found, map_some]
    refine ⟨_, rfl, ⟨formed.slots, formed.homed⟩, .replaced present rfl ?_⟩
    rw [← updated, get_update checked formed inside, present, map_some]
  · rename_i absent
    -- an overflow is resolved, then a buffer is added if no slot is left
    let overflow := config.overflowPolicy.overflowMargin ≤ part.size
    let resolved := if overflow then part.resolveOverflow config shuffle else part
    let dropped := if overflow then part.evictedKeys config shuffle else []
    have resolvedFormed : resolved.WellFormed config home task := by
      simp only [resolved]
      split
      · exact formed.resolveOverflow shuffle checked
      · exact formed
    have resolvedRows : resolved.get config = fun other =>
        if other ∈ dropped then none else part.get config other := by
      funext other
      simp only [resolved, dropped]
      split
      · exact get_resolveOverflow shuffle checked formed other
      · simp
    have resolvedSize : resolved.size = if overflow then
        min part.size config.overflowPolicy.resolution
        else part.size := by
      simp only [resolved]
      split
      · exact size_resolveOverflow shuffle checked formed
      · rfl
    have resolvedAbsent : resolved.slotMap.lookup key = none := by
      simp only [resolved]
      split
      · rw [resolveOverflow_slotMap shuffle checked formed, lookup_eraseMany, absent, ite_self]
      · exact absent
    let grown := if resolved.availableSlots.isEmpty then resolved.allocate config else resolved
    have grownFormed : grown.WellFormed config home task := by
      simp only [grown]
      split
      · exact resolvedFormed.allocate
      · exact resolvedFormed
    have grownRows : grown.get config = resolved.get config := by
      simp only [grown]
      split
      · exact get_allocate resolvedFormed
      · rfl
    have grownMap : grown.slotMap = resolved.slotMap := by
      simp only [grown]
      split <;> rfl
    have available : grown.availableSlots ≠ [] := by
      simp only [grown]
      split
      · exact allocate_availableSlots some_slots
      · rename_i left
        intro none_left
        exact left (by rw [none_left]; rfl)
    obtain ⟨result, emplaced, resultFormed, resultSize, garbage, length, rows⟩ :=
      emplace_spec checked grownFormed available lruValue inside own
        (by rw [grownMap, resolvedAbsent]) value
    refine ⟨result, emplaced, resultFormed, .added ?_ dropped garbage ?_ length ?_ ?_⟩
    · rw [get, absent]
      rfl
    · by_cases full : overflow
      · exact .inr full
      · exact .inl (if_neg full)
    · rw [resultSize, Nat.add_comm, Partition.size, grownMap, ← resolvedSize]
      rfl
    · rw [rows, grownRows, resolvedRows]

omit [DecidableEq Key] in
theorem WellFormed.slots_nil (formed : part.WellFormed config home task)
    (no_slots : config.slotsPerBuffer = 0) :
    part.pool.slots = [] := by
  have nothing : allocated config part.slotBuffers = [] := by
    apply eq_nil_iff_forall_not_mem.mpr
    intro slot member
    obtain ⟨-, i, inside, -⟩ := mem_allocated.mp member
    omega
  have slots := formed.slots
  rw [nothing] at slots
  exact slots.eq_nil

/-- `insert` gets through only if a buffer holds a slot. -/
theorem slots_of_insert (checked : config.Checked) (formed : part.WellFormed config home task)
    {lruValue : BitVec 64}
    {value : Nat → UInt8} {result : Partition Key}
    (inserted : part.insert config shuffle lruValue size key value = some result) :
      0 < config.slotsPerBuffer := by
  by_contra none_fits
  have no_slots : config.slotsPerBuffer = 0 := by omega
  rw [insert] at inserted
  split at inserted
  · rename_i slot found
    have held := SlotPool.held_mem_slots found
    rw [formed.slots_nil no_slots] at held
    exact not_mem_nil held
  · have grownFormed : ∀ resolved : Partition Key, resolved.WellFormed config home task →
        (if resolved.availableSlots.isEmpty then resolved.allocate config else resolved).WellFormed
          config home task := by
      intro resolved resolvedFormed
      split
      · exact resolvedFormed.allocate
      · exact resolvedFormed
    have resolvedFormed :
        (if config.overflowPolicy.overflowMargin ≤ part.size then
        part.resolveOverflow config shuffle
        else part).WellFormed config home task := by
      split
      · exact formed.resolveOverflow shuffle checked
      · exact formed
    have available := (append_eq_nil_iff.mp ((grownFormed _ resolvedFormed).slots_nil no_slots)).1
    dsimp only at inserted
    rw [emplace, availableSlots, available] at inserted
    exact absurd inserted (Option.some_ne_none _).symm

end Keys

end Partition

end EmbedCache.STLContainerTable
