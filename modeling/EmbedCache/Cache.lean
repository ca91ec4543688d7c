import EmbedCache.Hash
import EmbedCache.Lib.Bytes
import EmbedCache.Lib.KeyedSlots

/-! The set-associative cache of `ec_set_associative.h`: geometry, tag search and row addresses.

Tags and rows of all tables lie in one array each. Host code indexes them with
64-bit offsets, the kernels partly with `uint32_t`; the two agree for a table that
ends below slot `2 ^ 32`, which is what `Sized` states. -/

namespace EmbedCache

open Lib

variable {w : Nat} {C : Type*}

def numWays : Nat := 8

/-- Conversion to `uint32_t`. -/
def wrap32 (n : Nat) : Nat := n % 2 ^ 32

theorem wrap32_of_lt {n : Nat} (bound : n < 2 ^ 32) : wrap32 n = n := Nat.mod_eq_of_lt bound

/-- The configuration a cache works with after `init`. -/
structure CacheConfig (w : Nat) (C : Type*) where
  numSets : Nat
  numTables : Nat
  embedWidthInBytes : Nat
  decayRate : C
  sentinelKey : BitVec w
  deriving DecidableEq

abbrev Tags (w : Nat) := Nat → BitVec w
abbrev Memory := Nat → UInt8
abbrev Row := List UInt8

variable (cfg : CacheConfig w C) (table : Nat)

def tableBase : Nat := table * cfg.numSets * numWays

variable (tags : Tags w)

/-- First way `j` of the key's set, from tag slot `base` on, whose tag rebuilds the key. -/
def searchWays (base set numSets : Nat) (key : BitVec w) : Option Nat :=
  (List.range numWays).find? fun j => constructKey (tags (base + j)) set numSets == key

variable (key : BitVec w)

def findWay : Option Nat :=
  let set := hashSetIdx key cfg.numSets
  searchWays tags (tableBase cfg table + set * numWays) set cfg.numSets key

/-- `embed_cache_get_way_mask` and the `__ffs` its callers apply to the mask: the lowest
way whose tag rebuilds the key. `CacheData::num_sets` is 32 bits wide, the offset is not. -/
def wayOfMask : Option Nat :=
  let sets := wrap32 cfg.numSets
  let set := hashSetIdx key sets
  searchWays tags (table * sets * numWays + set * numWays) set sets key

/-- Byte offset of the row found by the `query` kernels, which add up the slot in `uint32_t`. -/
def queryAddress : Option Nat :=
  let sets := wrap32 cfg.numSets
  (wayOfMask cfg table tags key).map fun way =>
    wrap32 (table * sets * numWays + hashSetIdx key sets * numWays + way) * cfg.embedWidthInBytes

def lookup (memory : Memory) (key : BitVec w) :
    Option Row :=
  (queryAddress cfg table tags key).map fun address =>
    readRange memory address cfg.embedWidthInBytes

abbrev CacheSlot := Fin cfg.numSets × Fin numWays

variable {cfg : CacheConfig w C}

def CacheSlot.index (slot : CacheSlot cfg) : Nat :=
  tableBase cfg table + slot.1 * numWays + slot.2

theorem CacheSlot.index_injective {table : Nat} {first second : CacheSlot cfg}
    (same : first.index table = second.index table) : first = second := by
  have ways := first.2.isLt
  have others := second.2.isLt
  simp only [CacheSlot.index] at same
  simp only [numWays] at ways others same
  refine Prod.ext (Fin.ext ?_) (Fin.ext ?_) <;> omega

/-- The sizes for which no slot or row computation leaves the range of its type. -/
structure Sized (cfg : CacheConfig w C) (table : Nat) : Prop where
  positive : 0 < cfg.numSets
  present : table < cfg.numTables
  slots : (table + 1) * cfg.numSets * numWays ≤ 2 ^ 32
  row : cfg.embedWidthInBytes + 512 ≤ 2 ^ 32
  wide : 32 ≤ w

namespace Sized

variable {cfg : CacheConfig w C} {table : Nat} (sized : Sized cfg table)

include sized

theorem base_add_sets : tableBase cfg table + cfg.numSets * numWays ≤ 2 ^ 32 := by
  have total := sized.slots
  rw [Nat.add_mul, Nat.add_mul, Nat.one_mul] at total
  exact total

theorem sets_small : 8 * cfg.numSets ≤ 2 ^ 32 := by
  have total := sized.base_add_sets
  simp only [numWays] at total
  omega

theorem sets_fit : cfg.numSets ≤ 2 ^ 32 := by
  have small := sized.sets_small
  omega

theorem wrap32_numSets : wrap32 cfg.numSets = cfg.numSets := by
  have small := sized.sets_small
  have positive := sized.positive
  exact wrap32_of_lt (by omega)

theorem hash_lt (key : BitVec w) : hashSetIdx key cfg.numSets < cfg.numSets :=
  hashSetIdx_lt key cfg.numSets sized.positive

theorem wrap32_offset (key : BitVec w) :
    wrap32 (hashSetIdx key cfg.numSets * numWays) = hashSetIdx key cfg.numSets * numWays := by
  have hash := sized.hash_lt key
  have small := sized.sets_small
  exact wrap32_of_lt (by simp only [numWays]; omega)

theorem index_lt (slot : CacheSlot cfg) : slot.index table < 2 ^ 32 := by
  have total := sized.base_add_sets
  have set := slot.1.isLt
  have way := slot.2.isLt
  simp only [CacheSlot.index]
  simp only [numWays] at total way ⊢
  omega

theorem index_lt_total (slot : CacheSlot cfg) :
    slot.index table < cfg.numSets * numWays * cfg.numTables := by
  have present := sized.present
  have set := slot.1.isLt
  have way := slot.2.isLt
  have upto : (table + 1) * (cfg.numSets * numWays) ≤ cfg.numTables * (cfg.numSets * numWays) :=
    Nat.mul_le_mul_right _ present
  have inside : slot.1.val * numWays + slot.2.val < cfg.numSets * numWays := by
    simp only [numWays] at way ⊢
    omega
  calc
    slot.index table = table * (cfg.numSets * numWays) + (slot.1 * numWays + slot.2) := by
      simp only [CacheSlot.index, tableBase, Nat.add_assoc, Nat.mul_assoc]
    _ < (table + 1) * (cfg.numSets * numWays) := by
      rw [Nat.add_mul, Nat.one_mul]
      omega
    _ ≤ cfg.numSets * numWays * cfg.numTables := by
      rw [Nat.mul_comm (cfg.numSets * numWays)]
      exact upto

theorem room : 2 * cfg.numSets ≤ 2 ^ w := by
  have small := sized.sets_small
  have power : 2 ^ 32 ≤ 2 ^ w := Nat.pow_le_pow_right (by omega) sized.wide
  omega

theorem wayOfMask_eq (tags : Tags w) (key : BitVec w) :
    wayOfMask cfg table tags key = findWay cfg table tags key := by
  simp only [wayOfMask, findWay, sized.wrap32_numSets, tableBase]

end Sized

def CacheSlot.ofKey {table : Nat} (sized : Sized cfg table) (key : BitVec w) (way : Fin numWays) :
    CacheSlot cfg :=
  (⟨hashSetIdx key cfg.numSets, sized.hash_lt key⟩, way)

/-- One table with one set of one-byte rows. -/
def oneSet : CacheConfig 64 Nat := ⟨1, 1, 1, 1, -1⟩

theorem oneSet_sized : Sized oneSet 0 := ⟨by decide, by decide, by decide, by decide, by decide⟩

end EmbedCache
