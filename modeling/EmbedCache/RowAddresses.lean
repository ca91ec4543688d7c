import EmbedCache.HostModify
import EmbedCache.DeviceKernels
import EmbedCache.LookupKernels

/-! Addresses of cache rows and of the rows given to a modification.

Every lookup and every modification adds the address of a row up on its own, from operands of
32 and of 64 bits. The definitions follow the types of the source: a bit vector a C++ integer,
`setWidth` a conversion. A pointer is 64 bits wide. -/

namespace EmbedCache

variable {w : Nat} {C : Type*}

structure CacheStorage where
  cachePtr : BitVec 64
  numSets : BitVec 64
  embedWidth : BitVec 64

namespace CacheStorage

variable (storage : CacheStorage)

/-- `CacheData::num_sets`, also the argument of the kernels. -/
def numSets32 : BitVec 32 := storage.numSets.setWidth 32

/-- `embed_width_in_bytes` as the kernels of a modification receive it. -/
def embedWidth32 : BitVec 32 := storage.embedWidth.setWidth 32

def tableCache (table : BitVec 32) : BitVec 64 :=
  storage.cachePtr + table.setWidth 64 * storage.numSets * 8 * storage.embedWidth

variable (table set way : BitVec 32)

/-- The row of a way in `embed_cache_get_address`, which works in 64 bits. -/
def lookupRow : BitVec 64 :=
  let cacheOffset := table.setWidth 64 * storage.numSets32.setWidth 64 * 8
  storage.cachePtr + (cacheOffset + set.setWidth 64 * 8 + way.setWidth 64) * storage.embedWidth

/-- The row of a way in the `query` kernels, which add the slot up in 32 bits. -/
def queryRow : BitVec 64 :=
  let cacheOffset := table * storage.numSets32 * 8
  storage.cachePtr + (cacheOffset + set * 8 + way).setWidth 64 * storage.embedWidth

def updateDst : BitVec 64 :=
  storage.tableCache table + ((set * 8 + way) * storage.embedWidth32).setWidth 64

def replaceDst : BitVec 64 :=
  storage.tableCache table + (set * 8 + way).setWidth 64 * storage.embedWidth32.setWidth 64

/-- `dst` in `search_tag_storage_for_update` for keys of `w` bits: the slot has the wider of
the types of the keys and of `NUM_WAYS`. -/
def hostUpdateDst (w : Nat) (table set way : BitVec 32) : BitVec 64 :=
  let slot : BitVec (max 32 w) := set.setWidth _ * 8 + way.setWidth _
  storage.tableCache table + slot.setWidth 64 * storage.embedWidth

/-- Slots of the table; the set of a key is a `uint32_t`. -/
structure Slot (set way : BitVec 32) : Prop where
  set : set.toNat < storage.numSets.toNat
  way : way.toNat < numWays

/-- The rows up to the end of the table lie in the address space. -/
def Fits (table : BitVec 32) : Prop :=
  storage.cachePtr.toNat + (table.toNat + 1) * storage.numSets.toNat * numWays *
    storage.embedWidth.toNat ≤ 2 ^ 64

end CacheStorage

variable (values stride : BitVec 64)

/-- `values + keyID * value_stride` in `SetUpdateDataKernel`; `value_stride` is a `uint32_t`. -/
def updateSrc (keyID : BitVec 32) : BitVec 64 :=
  values + (keyID * stride.setWidth 32).setWidth 64

def hostUpdateSrc (i : BitVec 32) : Option (BitVec 64) :=
  if (i.setWidth 64).smulOverflow stride then none else some (values + i.setWidth 64 * stride)

def rowStart (i : BitVec 32) : BitVec 64 := values + i.setWidth 64 * stride

/-! ### Offsets as numbers -/

namespace CacheStorage

variable (storage : CacheStorage) (table set way : BitVec 32)

@[simp] def byteAt (offset : Nat) : BitVec 64 := storage.cachePtr + BitVec.ofNat 64 offset

/-- The first slot of the table, and the same as `CacheData` knows it, by the 32-bit number of
sets. -/
@[simp] def firstSlot : Nat := table.toNat * storage.numSets.toNat * 8

@[simp] def firstSlot32 : Nat := table.toNat * (storage.numSets.toNat % 2 ^ 32) * 8

theorem lookupRow_eq :
    storage.lookupRow table set way = storage.byteAt
      ((storage.firstSlot32 table + (set.toNat * 8 + way.toNat)) * storage.embedWidth.toNat) := by
  apply BitVec.eq_of_toNat_eq
  simp [lookupRow, numSets32, add_assoc]

theorem queryRow_eq :
    storage.queryRow table set way =
      storage.byteAt ((storage.firstSlot32 table + (set.toNat * 8 + way.toNat)) % 2 ^ 32 *
      storage.embedWidth.toNat) := by
  have wrapped : (storage.firstSlot32 table + (set.toNat * 8 + way.toNat)) % 2 ^ 32 =
      (storage.firstSlot table + (set.toNat * 8 + way.toNat)) % 2 ^ 32 := by
    have same : storage.firstSlot32 table ≡ storage.firstSlot table [MOD 2 ^ 32] :=
      ((Nat.mod_modEq _ _).mul_left _).mul_right _
    exact same.add_right _
  rw [wrapped]
  apply BitVec.eq_of_toNat_eq
  simp [queryRow, numSets32, add_assoc]

theorem updateDst_eq :
    storage.updateDst table set way =
      storage.byteAt (storage.firstSlot table * storage.embedWidth.toNat +
        (set.toNat * 8 + way.toNat) * storage.embedWidth.toNat % 2 ^ 32) := by
  apply BitVec.eq_of_toNat_eq
  simp [updateDst, tableCache, embedWidth32, add_assoc]

theorem replaceDst_eq :
    storage.replaceDst table set way =
      storage.byteAt (storage.firstSlot table * storage.embedWidth.toNat +
        (set.toNat * 8 + way.toNat) % 2 ^ 32 * (storage.embedWidth.toNat % 2 ^ 32)) := by
  apply BitVec.eq_of_toNat_eq
  simp [replaceDst, tableCache, embedWidth32, add_assoc]

theorem hostUpdateDst_eq (w : Nat) (table set way : BitVec 32) :
    storage.hostUpdateDst w table set way =
      storage.byteAt (storage.firstSlot table * storage.embedWidth.toNat +
        (set.toNat * 8 + way.toNat) % 2 ^ max 32 w * storage.embedWidth.toNat) := by
  apply BitVec.eq_of_toNat_eq
  simp [hostUpdateDst, tableCache, add_assoc]

/-- Sets that a `uint32_t` can name. -/
def namedSets : Nat := min storage.numSets.toNat (2 ^ 32)

variable {storage}

theorem forall_slot {P : Nat → Prop} :
    (∀ set way, storage.Slot set way → P (set.toNat * 8 + way.toNat)) ↔
      ∀ slot < storage.namedSets * 8, P slot := by
  constructor
  · intro all slot small
    have named : slot / 8 < storage.namedSets := Nat.div_lt_of_lt_mul (by omega)
    have narrow := lt_min_iff.mp named
    have set : (BitVec.ofNat 32 (slot / 8)).toNat = slot / 8 := Nat.mod_eq_of_lt narrow.2
    have way : (BitVec.ofNat 32 (slot % 8)).toNat = slot % 8 := Nat.mod_eq_of_lt (by omega)
    have here := all (BitVec.ofNat 32 (slot / 8)) (BitVec.ofNat 32 (slot % 8))
    rw [set, way, Nat.div_add_mod'] at here
    apply here
    constructor
    · exact lt_of_eq_of_lt set narrow.1
    · exact lt_of_eq_of_lt way (Nat.mod_lt _ (by decide))
  · intro all set way slot
    have named : set.toNat < storage.namedSets := lt_min slot.set set.isLt
    have := slot.way
    apply all
    simp only [numWays] at this
    omega

theorem offset_eq_iff {a b : Nat} (first : a < 2 ^ 64) (second : b < 2 ^ 64) :
    storage.byteAt a = storage.byteAt b ↔ a = b := by
  constructor
  · intro same
    have numbers := congrArg BitVec.toNat (add_left_cancel same)
    rw [BitVec.toNat_ofNat, BitVec.toNat_ofNat, Nat.mod_eq_of_lt first,
      Nat.mod_eq_of_lt second] at numbers
    exact numbers
  · intro same
    rw [same]

section Agreement

variable {table : BitVec 32} (fits : storage.Fits table) (sets : 0 < storage.numSets.toNat)

include fits in
theorem Fits.offset_lt {slot : Nat}
    (inside : slot < (table.toNat + 1) * storage.numSets.toNat * 8) :
    slot * storage.embedWidth.toNat < 2 ^ 64 := by
  have total : (table.toNat + 1) * storage.numSets.toNat * 8 * storage.embedWidth.toNat ≤ 2 ^ 64 :=
    (Nat.le_add_left _ _).trans fits
  rcases eq_zero_or_pos storage.embedWidth.toNat with empty | positive
  · rw [empty, mul_zero]
    decide
  · exact (Nat.mul_lt_mul_of_pos_right inside positive).trans_le total

theorem slot_lt {slot : Nat} (small : slot < storage.namedSets * 8) :
    storage.firstSlot table + slot < (table.toNat + 1) * storage.numSets.toNat * 8 := by
  have named : storage.namedSets ≤ storage.numSets.toNat := min_le_left _ _
  rw [firstSlot, add_mul, add_mul, Nat.one_mul]
  omega

theorem tableStart_le : storage.firstSlot32 table ≤ storage.firstSlot table :=
  Nat.mul_le_mul_right _ (Nat.mul_le_mul_left _ (Nat.mod_le _ _))

theorem tableStart_eq_iff :
    storage.firstSlot table * storage.embedWidth.toNat =
        storage.firstSlot32 table * storage.embedWidth.toNat ↔
      storage.embedWidth.toNat = 0 ∨ table.toNat = 0 ∨ storage.numSets.toNat < 2 ^ 32 := by
  have narrow : storage.numSets.toNat = storage.numSets.toNat % 2 ^ 32 ↔
      storage.numSets.toNat < 2 ^ 32 := by
    rw [eq_comm, Nat.mod_eq_iff_lt (by decide)]
  rw [firstSlot, firstSlot32, mul_eq_mul_right_iff, mul_eq_mul_right_iff,
    mul_eq_mul_left_iff, narrow]
  omega

include fits sets in
/-- A modification that adds `offset slot` to the start of the table reaches the row of the
lookups. -/
theorem agrees_iff {offset : Nat → Nat}
    (below : ∀ slot, offset slot ≤ slot * storage.embedWidth.toNat) :
    (∀ slot < storage.namedSets * 8,
      storage.byteAt (storage.firstSlot table * storage.embedWidth.toNat + offset slot) =
        storage.byteAt ((storage.firstSlot32 table + slot) * storage.embedWidth.toNat)) ↔
      (storage.embedWidth.toNat = 0 ∨ table.toNat = 0 ∨ storage.numSets.toNat < 2 ^ 32) ∧
        ∀ slot < storage.namedSets * 8, offset slot = slot * storage.embedWidth.toNat := by
  have addresses : ∀ slot < storage.namedSets * 8,
      (storage.byteAt (storage.firstSlot table * storage.embedWidth.toNat + offset slot) =
        storage.byteAt ((storage.firstSlot32 table + slot) * storage.embedWidth.toNat)) ↔
      storage.firstSlot table * storage.embedWidth.toNat + offset slot =
        storage.firstSlot32 table * storage.embedWidth.toNat + slot * storage.embedWidth.toNat := by
    intro slot small
    have inside : storage.firstSlot table + slot < (table.toNat + 1) * storage.numSets.toNat * 8 :=
      slot_lt small
    rw [← add_mul]
    apply offset_eq_iff
    · have bound := fits.offset_lt inside
      rw [add_mul] at bound
      exact (Nat.add_le_add_left (below slot) _).trans_lt bound
    · exact fits.offset_lt ((Nat.add_le_add_right tableStart_le _).trans_lt inside)
  rw [← tableStart_eq_iff]
  constructor
  · intro all
    have named : 0 < storage.namedSets := lt_min sets (by decide)
    -- slot 0 lies at the start of the table
    have start : storage.firstSlot table * storage.embedWidth.toNat =
        storage.firstSlot32 table * storage.embedWidth.toNat := by
      have first := (addresses 0 (by omega)).mp (all 0 (by omega))
      have none := below 0
      rw [Nat.zero_mul] at first none
      omega
    refine ⟨start, fun slot small => ?_⟩
    have here := (addresses slot small).mp (all slot small)
    omega
  · intro agrees slot small
    rw [addresses slot small, agrees.1, agrees.2 slot small]

/-! ### When they agree -/

include sets in
theorem namedSets_pos : 0 < storage.namedSets := lt_min sets (by decide)

theorem namedSets_le : storage.namedSets ≤ storage.numSets.toNat := min_le_left _ _

theorem namedSets_eq : storage.namedSets = storage.numSets.toNat ∨ storage.namedSets = 2 ^ 32 :=
  min_choice _ _

include fits sets in
theorem updateDst_agrees_iff :
    (∀ set way, storage.Slot set way →
      storage.updateDst table set way = storage.lookupRow table set way) ↔
      (storage.numSets.toNat * 8 - 1) * storage.embedWidth.toNat < 2 ^ 32 := by
  have named := namedSets_pos sets
  have le := storage.namedSets_le
  simp only [updateDst_eq, lookupRow_eq]
  rw [forall_slot (P := fun slot => storage.byteAt (_ + slot * _ % 2 ^ 32) =
    storage.byteAt ((_ + slot) * _)), agrees_iff fits sets fun slot => Nat.mod_le _ _]
  constructor
  · intro agrees
    have last := agrees.2 (storage.namedSets * 8 - 1) (by omega)
    rw [Nat.mod_eq_iff_lt (by decide)] at last
    rcases storage.namedSets_eq with all | some
    · rw [← all]
      exact last
    · have empty : storage.embedWidth.toNat = 0 := by
        rw [some] at last
        omega
      rw [empty, mul_zero]
      decide
  · intro small
    constructor
    · by_contra wide
      rw [not_or, not_or, not_lt] at wide
      have := Nat.le_mul_of_pos_right (storage.numSets.toNat * 8 - 1) (Nat.pos_of_ne_zero wide.1)
      omega
    · intro slot inside
      have within : slot ≤ storage.numSets.toNat * 8 - 1 := by omega
      exact Nat.mod_eq_of_lt ((Nat.mul_le_mul_right _ within).trans_lt small)

include fits sets in
theorem replaceDst_agrees_iff :
    (∀ set way, storage.Slot set way →
      storage.replaceDst table set way = storage.lookupRow table set way) ↔
      storage.embedWidth.toNat = 0 ∨ storage.numSets.toNat * 8 ≤ 2 ^ 32 ∧
        storage.embedWidth.toNat < 2 ^ 32 := by
  have named := namedSets_pos sets
  have le := storage.namedSets_le
  simp only [replaceDst_eq, lookupRow_eq]
  rw [forall_slot (P := fun slot => storage.byteAt (_ + slot % 2 ^ 32 * (_ % 2 ^ 32)) =
    storage.byteAt ((_ + slot) * _)),
    agrees_iff fits sets fun slot => Nat.mul_le_mul (Nat.mod_le _ _) (Nat.mod_le _ _)]
  constructor
  · intro agrees
    rcases eq_zero_or_pos storage.embedWidth.toNat with empty | positive
    · exact .inl empty
    · have second := agrees.2 1 (by omega)
      rw [Nat.mod_eq_of_lt (by decide), Nat.one_mul, Nat.one_mul,
        Nat.mod_eq_iff_lt (by decide)] at second
      have last := agrees.2 (storage.namedSets * 8 - 1) (by omega)
      rw [Nat.mod_eq_of_lt second, Nat.mul_right_cancel_iff positive,
        Nat.mod_eq_iff_lt (by decide)] at last
      refine .inr ⟨?_, second⟩
      rcases storage.namedSets_eq with all | some <;> omega
  · intro small
    rcases small with empty | ⟨slots, width⟩
    · refine ⟨.inl empty, fun slot _ => ?_⟩
      rw [empty, Nat.zero_mod, mul_zero, mul_zero]
    · refine ⟨.inr (.inr (by omega)), fun slot inside => ?_⟩
      rw [Nat.mod_eq_of_lt width, Nat.mod_eq_of_lt (by omega)]

include fits sets in
theorem hostUpdateDst_agrees_iff (w : Nat) :
    (∀ set way, storage.Slot set way →
      storage.hostUpdateDst w table set way = storage.lookupRow table set way) ↔
      storage.embedWidth.toNat = 0 ∨
        (table.toNat = 0 ∨ storage.numSets.toNat < 2 ^ 32) ∧
          storage.namedSets * 8 ≤ 2 ^ max 32 w := by
  have named := namedSets_pos sets
  simp only [hostUpdateDst_eq, lookupRow_eq]
  rw [forall_slot (P := fun slot => storage.byteAt (_ + slot % 2 ^ max 32 w * _) =
    storage.byteAt ((_ + slot) * _)),
    agrees_iff fits sets fun slot => Nat.mul_le_mul_right _ (Nat.mod_le _ _)]
  constructor
  · intro agrees
    rcases eq_zero_or_pos storage.embedWidth.toNat with empty | positive
    · exact .inl empty
    · have last := agrees.2 (storage.namedSets * 8 - 1) (by omega)
      rw [Nat.mul_right_cancel_iff positive, Nat.mod_eq_iff_lt (Nat.two_pow_pos _).ne'] at last
      exact .inr ⟨agrees.1.resolve_left positive.ne', by omega⟩
  · intro small
    rcases small with empty | ⟨start, slots⟩
    · refine ⟨.inl empty, fun slot _ => ?_⟩
      rw [empty, mul_zero, mul_zero]
    · refine ⟨.inr start, fun slot inside => ?_⟩
      rw [Nat.mod_eq_of_lt (by omega)]

include fits sets in
theorem queryRow_agrees_iff :
    (∀ set way, storage.Slot set way →
      storage.queryRow table set way = storage.lookupRow table set way) ↔
      storage.embedWidth.toNat = 0 ∨
        (table.toNat * (storage.numSets.toNat % 2 ^ 32) + storage.namedSets) * 8 ≤ 2 ^ 32 := by
  have named := namedSets_pos sets
  have first : storage.firstSlot32 table = table.toNat * (storage.numSets.toNat % 2 ^ 32) * 8 := rfl
  simp only [queryRow_eq, lookupRow_eq]
  rw [forall_slot (P := fun slot => storage.byteAt ((_ + slot) % 2 ^ 32 * _) =
    storage.byteAt ((_ + slot) * _))]
  have numbers : ∀ slot < storage.namedSets * 8,
      (storage.byteAt ((storage.firstSlot32 table + slot) % 2 ^ 32 * storage.embedWidth.toNat) =
        storage.byteAt ((storage.firstSlot32 table + slot) * storage.embedWidth.toNat)) ↔
      storage.firstSlot32 table + slot < 2 ^ 32 ∨ storage.embedWidth.toNat = 0 := by
    intro slot small
    have inside : storage.firstSlot table + slot < (table.toNat + 1) * storage.numSets.toNat * 8 :=
      slot_lt small
    have bound := fits.offset_lt ((Nat.add_le_add_right tableStart_le slot).trans_lt inside)
    rw [offset_eq_iff ((Nat.mul_le_mul_right _ (Nat.mod_le _ _)).trans_lt bound) bound,
      mul_eq_mul_right_iff,
      Nat.mod_eq_iff_lt (by decide)]
  constructor
  · intro agrees
    rcases (numbers _ (by omega)).mp
      (agrees (storage.namedSets * 8 - 1) (by omega)) with last | empty
    · exact .inr (by omega)
    · exact .inl empty
  · intro small slot inside
    rw [numbers slot inside]
    omega

end Agreement

end CacheStorage

/-! ### Source rows -/

theorem updateSrc_eq_iff (values stride : BitVec 64) (i : BitVec 32) :
    updateSrc values stride i = rowStart values stride i ↔
      (i.setWidth 64 * stride).toNat < 2 ^ 32 := by
  have wrapped : (i * stride.setWidth 32).setWidth 64 =
      BitVec.ofNat 64 ((i.setWidth 64 * stride).toNat % 2 ^ 32) := by
    apply BitVec.eq_of_toNat_eq
    simp
  rw [updateSrc, rowStart, add_right_inj, wrapped]
  constructor
  · intro same
    have numbers := congrArg BitVec.toNat same
    rw [BitVec.toNat_ofNat] at numbers
    omega
  · intro small
    rw [Nat.mod_eq_of_lt small, BitVec.ofNat_toNat, BitVec.setWidth_eq]

theorem hostUpdateSrc_eq_iff (values stride : BitVec 64) (i : BitVec 32) :
    hostUpdateSrc values stride i = some (rowStart values stride i) ↔
      (i.setWidth 64).smulOverflow stride = false := by
  rw [hostUpdateSrc]
  cases (i.setWidth 64).smulOverflow stride with
  | true => simp
  | false => simp [rowStart]

/-! ### All of them -/

/-- Modifications write the rows that the lookups read, and read the rows that they were given. -/
structure AddressesAgree (storage : CacheStorage) (w : Nat) (table : BitVec 32)
    (values stride : BitVec 64) (numKeys : Nat) : Prop where
  update : ∀ set way, storage.Slot set way →
    storage.updateDst table set way = storage.lookupRow table set way
  replace : ∀ set way, storage.Slot set way →
    storage.replaceDst table set way = storage.lookupRow table set way
  hostUpdate : ∀ set way, storage.Slot set way →
    storage.hostUpdateDst w table set way = storage.lookupRow table set way
  query : ∀ set way, storage.Slot set way →
    storage.queryRow table set way = storage.lookupRow table set way
  source : ∀ i : BitVec 32, i.toNat < numKeys → updateSrc values stride i = rowStart values stride i
  hostSource : ∀ i : BitVec 32, i.toNat < numKeys →
    hostUpdateSrc values stride i = some (rowStart values stride i)

/-- The sizes for which no product and no sum leaves its type. -/
structure AddressesInRange (storage : CacheStorage) (table : BitVec 32) (stride : BitVec 64)
    (numKeys : Nat) : Prop where
  rows : (storage.numSets.toNat * 8 - 1) * storage.embedWidth.toNat < 2 ^ 32
  slots : storage.embedWidth.toNat = 0 ∨
    (table.toNat * (storage.numSets.toNat % 2 ^ 32) + storage.namedSets) * 8 ≤ 2 ^ 32
  offsets : ∀ i : BitVec 32, i.toNat < numKeys → (i.setWidth 64 * stride).toNat < 2 ^ 32
  products : ∀ i : BitVec 32, i.toNat < numKeys → (i.setWidth 64).smulOverflow stride = false

namespace CacheStorage

variable {storage : CacheStorage} (sets : 0 < storage.numSets.toNat)
  (rows : (storage.numSets.toNat * 8 - 1) * storage.embedWidth.toNat < 2 ^ 32)

include sets rows

/-- A table whose rows end below `2 ^ 32` is small in every respect, unless its rows are empty. -/
theorem small_of_rows : storage.embedWidth.toNat = 0 ∨ storage.numSets.toNat * 8 ≤ 2 ^ 32 ∧
    storage.embedWidth.toNat < 2 ^ 32 := by
  rcases eq_zero_or_pos storage.embedWidth.toNat with empty | positive
  · exact .inl empty
  · have slots := Nat.le_mul_of_pos_right (storage.numSets.toNat * 8 - 1) positive
    have width :=
      Nat.le_mul_of_pos_left storage.embedWidth.toNat
        (show 0 < storage.numSets.toNat * 8 - 1 by omega)
    exact .inr ⟨by omega, by omega⟩

theorem hostSmall_of_rows (w : Nat) (table : BitVec 32) : storage.embedWidth.toNat = 0 ∨
    (table.toNat = 0 ∨ storage.numSets.toNat < 2 ^ 32) ∧ storage.namedSets * 8 ≤ 2 ^ max 32 w := by
  rcases small_of_rows sets rows with empty | ⟨slots, _⟩
  · exact .inl empty
  · have named := storage.namedSets_le
    have wide : 2 ^ 32 ≤ 2 ^ max 32 w := Nat.pow_le_pow_right (by decide) (le_max_left _ _)
    exact .inr ⟨.inr (by omega), by omega⟩

end CacheStorage

/-- The addresses agree exactly for these sizes. -/
theorem addressesAgree_iff (storage : CacheStorage) (w : Nat) (table : BitVec 32)
    (values stride : BitVec 64) (numKeys : Nat)
    (fits : storage.Fits table) (sets : 0 < storage.numSets.toNat) :
    AddressesAgree storage w table values stride numKeys ↔
      AddressesInRange storage table stride numKeys := by
  constructor
  · intro agree
    constructor
    · exact (CacheStorage.updateDst_agrees_iff fits sets).mp agree.update
    · exact (CacheStorage.queryRow_agrees_iff fits sets).mp agree.query
    · intro i inside
      exact (updateSrc_eq_iff values stride i).mp (agree.source i inside)
    · intro i inside
      exact (hostUpdateSrc_eq_iff values stride i).mp (agree.hostSource i inside)
  · intro range
    constructor
    · exact (CacheStorage.updateDst_agrees_iff fits sets).mpr range.rows
    · exact (CacheStorage.replaceDst_agrees_iff fits sets).mpr
        (CacheStorage.small_of_rows sets range.rows)
    · exact (CacheStorage.hostUpdateDst_agrees_iff fits sets w).mpr
        (CacheStorage.hostSmall_of_rows sets range.rows w table)
    · exact (CacheStorage.queryRow_agrees_iff fits sets).mpr range.slots
    · intro i inside
      exact (updateSrc_eq_iff values stride i).mpr (range.offsets i inside)
    · intro i inside
      exact (hostUpdateSrc_eq_iff values stride i).mpr (range.products i inside)

def bigStorage : CacheStorage := ⟨0, 2 ^ 21, 512⟩

/-- A cache of 64 KiB, and two keys. -/
theorem addressesAgree_iff_small : AddressesAgree ⟨4096, 16, 512⟩ 64 0 0 512 2 := by
  have positions : ∀ i : BitVec 32, i.toNat < 2 → i = 0 ∨ i = 1 := by
    intro i inside
    rcases Nat.lt_succ_iff_lt_or_eq.mp inside with first | second
    · exact .inl (BitVec.eq_of_toNat_eq (Nat.lt_one_iff.mp first))
    · exact .inr (BitVec.eq_of_toNat_eq second)
  refine (addressesAgree_iff ⟨4096, 16, 512⟩ 64 0 0 512 2 ?_ ?_).mpr
    ⟨?_, ?_, fun i inside => ?_, fun i inside => ?_⟩
  · unfold CacheStorage.Fits
    decide
  · decide
  · decide
  · decide
  · rcases positions i inside with rfl | rfl <;> decide
  · rcases positions i inside with rfl | rfl <;> decide

/-- An update of way 0 of set `2 ^ 20` writes the row of slot 0, and key `2 ^ 23` gets the row
of key 0. -/
theorem big_update_hits_slot_zero :
    bigStorage.Fits 0 ∧ bigStorage.updateDst 0 (2 ^ 20) 0 = bigStorage.lookupRow 0 0 0 ∧
      updateSrc 0 512 (2 ^ 23) = rowStart 0 512 0 ∧
        ¬ AddressesAgree bigStorage 64 0 0 512 (2 ^ 24) := by
  refine ⟨?_, by decide, by decide, fun agree => ?_⟩
  · unfold CacheStorage.Fits
    decide
  · have slot : bigStorage.Slot (2 ^ 20) 0 := ⟨by decide, by decide⟩
    exact absurd (agree.update _ _ slot) (by decide)

/-! ### The rows of the list model -/

open CacheStorage Nat

def CacheStorage.ofConfig (cachePtr : BitVec 64) (cfg : CacheConfig w C) : CacheStorage :=
  ⟨cachePtr, BitVec.ofNat 64 cfg.numSets, BitVec.ofNat 64 cfg.embedWidthInBytes⟩

def ModifyEntry.Writes (entry : ModifyEntry w) (storage : CacheStorage)
    (dst : BitVec 32 → BitVec 32 → BitVec 64) : Prop :=
  storage.cachePtr + BitVec.ofNat 64 entry.dst =
    dst (BitVec.ofNat 32 entry.set) (BitVec.ofNat 32 entry.way)

/-- The offsets of the modify lists and of the lookups, which are numbers, stand for the words that
the source computes. -/
structure RowsAddressed [LinearOrder C] [Zero C] [Add C] (storage : CacheStorage)
    (cfg : CacheConfig w C) (table : BitVec 32)
    (tags : Tags w) : Prop where
  update : ∀ keys buffer, ∀ entry ∈ computeSetUpdateData cfg table.toNat keys buffer tags,
    entry.Writes storage (storage.updateDst table)
  replace : ∀ (work : SetWork w C) x,
    (work.entry (tableBase cfg table.toNat) cfg.embedWidthInBytes x).Writes storage
      (storage.replaceDst table)
  hostUpdate : ∀ maxUpdateSz buffer keys,
    ∀ entry ∈ CacheSAHostModify.searchTagStorageForUpdate cfg table.toNat maxUpdateSz tags
      buffer 0 keys [],
      entry.Writes storage (storage.hostUpdateDst w table)
  lookup : ∀ key, (LookupKernels.getAddress cfg table.toNat tags key).map
    (storage.cachePtr + BitVec.ofNat 64 ·) =
    (wayOfMask cfg table.toNat tags key).map fun way =>
      storage.lookupRow table (BitVec.ofNat 32 (hashSetIdx key (wrap32 cfg.numSets)))
        (BitVec.ofNat 32 way)
  query : ∀ key, (queryAddress cfg table.toNat tags key).map
    (storage.cachePtr + BitVec.ofNat 64 ·) =
    (wayOfMask cfg table.toNat tags key).map fun way =>
      storage.queryRow table (BitVec.ofNat 32 (hashSetIdx key (wrap32 cfg.numSets)))
        (BitVec.ofNat 32 way)

section Rows

variable (cachePtr : BitVec 64) (cfg : CacheConfig w C) (table : BitVec 32) (tags : Tags w)

theorem hashSetIdx_narrow (key : BitVec w) (n : Nat) :
    hashSetIdx key n % 4294967296 = hashSetIdx key n := Nat.mod_mod _ _

/-- The list of a host update, from any entries on. -/
theorem searchTagStorageForUpdate_writes (maxUpdateSz : Nat) (buffer : RowBuffer) (i : Nat)
    (keys : List (BitVec w))
    (entries : List (ModifyEntry w))
    (before : ∀ entry ∈ entries,
      entry.Writes (ofConfig cachePtr cfg) ((ofConfig cachePtr cfg).hostUpdateDst w table)) :
    ∀ entry ∈ CacheSAHostModify.searchTagStorageForUpdate cfg table.toNat maxUpdateSz tags buffer i
      keys entries,
      entry.Writes (ofConfig cachePtr cfg) ((ofConfig cachePtr cfg).hostUpdateDst w table) := by
  induction keys generalizing i entries with
  | nil => exact before
  | cons key rest ih =>
    rw [CacheSAHostModify.searchTagStorageForUpdate]
    split
    · dsimp only
      split
      · exact ih _ _ before
      · next j found =>
          apply ih
          intro entry member
          rcases List.mem_append.mp member with old | new
          · exact before entry old
          · cases List.mem_singleton.mp new
            have small : j < 8 := List.mem_range.mp (List.mem_of_find?_eq_some found)
            have way : j % 4294967296 = j := Nat.mod_eq_of_lt (by omega)
            apply BitVec.eq_of_toNat_eq
            simp [hostUpdateDst, tableCache, ofConfig, tableBase, numWays, add_assoc, way,
              hashSetIdx_narrow]
    · exact before

theorem rows_addressed [LinearOrder C] [Zero C] [Add C] :
    RowsAddressed (ofConfig cachePtr cfg) cfg table tags where
  update keys buffer entry member := by
    obtain ⟨hit, _, inKey⟩ := List.mem_flatMap.mp member
    obtain ⟨j, _, found⟩ := List.mem_filterMap.mp inKey
    dsimp only at found
    split at found
    · cases found
      apply BitVec.eq_of_toNat_eq
      simp [updateDst, tableCache, embedWidth32, ofConfig, tableBase, wrap32, numWays, add_assoc]
    · cases found
  replace work x := by
    apply BitVec.eq_of_toNat_eq
    simp [SetWork.entry, replaceDst, tableCache, embedWidth32, ofConfig, tableBase, wrap32,
      numWays, add_assoc]
  hostUpdate maxUpdateSz buffer keys :=
    searchTagStorageForUpdate_writes cachePtr cfg table tags maxUpdateSz buffer 0 keys [] nofun
  lookup key := by
    rw [LookupKernels.getAddress, Option.map_map]
    apply Option.map_congr
    intro way found
    have small : way < 8 := by
      rw [wayOfMask, searchWays] at found
      exact List.mem_range.mp (List.mem_of_find?_eq_some found)
    have narrow : way % 4294967296 = way := Nat.mod_eq_of_lt (by omega)
    apply BitVec.eq_of_toNat_eq
    simp [lookupRow, numSets32, ofConfig, numWays, narrow, hashSetIdx_narrow]
    rfl
  query key := by
    rw [queryAddress, Option.map_map]
    apply Option.map_congr
    intro way _
    rw [queryRow_eq]
    apply BitVec.eq_of_toNat_eq
    simp [ofConfig, numWays, wrap32, ← add_assoc, hashSetIdx_narrow]

end Rows

end EmbedCache
