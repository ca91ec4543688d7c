import EmbedCache.LookupKernels

/-! `AddressFunctor` for 16-bit tags, which works in 32 bits where `embed_cache_get_address` works
in 64. -/

namespace EmbedCache.LookupKernels

open List

variable {w : Nat} {C : Type*} (cfg : CacheConfig w C) (table : Nat) (tags : Tags w)
  (key : BitVec w)

/-- The row that `AddressFunctor::get_address` finds; the key of a way is built as a `uint32_t`. -/
def getAddress16 : Option Nat :=
  let sets := wrap32 cfg.numSets
  let set := hashSetIdx key sets
  let cacheOffset := wrap32 (table * sets * numWays)
  let way := (List.range numWays).find? fun i =>
    wrap32 ((tags (wrap32 (cacheOffset + set * numWays) + i)).toNat * sets + set) == key.toNat
  way.map fun way => wrap32 (cacheOffset + set * numWays + way) * cfg.embedWidthInBytes

structure Answer where
  hit : Bool
  lanePtr : Int
  misses : Nat
  deriving DecidableEq

/-- What both versions return for a row and without one; `uvm` is the table in unified memory, if
there is one. -/
def answer (cachePtr : Int) (uvm : Option Int) (laneIdx : Int) (countMisses : Bool) (misses : Nat) :
    Option Nat → Answer
  | some offset => ⟨true, cachePtr + offset, misses⟩
  | none => ⟨false, (uvm.map fun base => base + laneIdx * cfg.embedWidthInBytes).getD 0,
    misses + countMisses.toNat⟩

variable {cfg table tags key}

section Search

variable {sets : Nat} (known : wrap32 cfg.numSets = sets) (positive : 0 < sets)

include known positive

theorem getAddress16_eq (slots : (table + 1) * sets * 8 ≤ 2 ^ 32)
    (keys : w = 32 ∨ w = 64 ∧ sets ≤ 2 ^ 16)
    (small : ∀ i, (tags i).toNat < 2 ^ 16) :
      getAddress16 cfg table tags key = getAddress cfg table tags key := by
  have hash := hashSetIdx_lt key _ positive
  simp only [getAddress16, getAddress, wayOfMask, searchWays, constructKey, known]
  generalize hashSetIdx key sets = set at *
  rw [Nat.add_mul, Nat.add_mul, Nat.one_mul] at slots
  have test : ∀ i, (wrap32 ((tags i).toNat * sets + set) == key.toNat) =
      (BitVec.ofNat w ((tags i).toNat * sets + set) == key) := by
    intro i
    rw [Bool.eq_iff_iff, beq_iff_eq, beq_iff_eq, BitVec.toNat_eq, BitVec.toNat_ofNat, wrap32]
    rcases keys with rfl | ⟨rfl, few⟩
    · rfl
    · have product : (tags i).toNat * sets ≤ 65535 * sets :=
        Nat.mul_le_mul_right _ (Nat.le_of_lt_succ (small i))
      rw [Nat.mod_eq_of_lt (by omega), Nat.mod_eq_of_lt (by omega)]
  have first : wrap32 (table * sets * numWays) = table * sets * numWays :=
    wrap32_of_lt (by simp only [numWays]; omega)
  have base : wrap32 (table * sets * numWays + set * numWays) =
      table * sets * numWays + set * numWays :=
    wrap32_of_lt (by simp only [numWays]; omega)
  simp only [first, base, test]
  cases found : (List.range numWays).find? _ with
  | none => rfl
  | some way =>
    have bound := mem_range.mp (mem_of_find?_eq_some found)
    simp only [Option.map_some, numWays] at bound ⊢
    rw [wrap32_of_lt (by omega)]

variable (agree : ∀ (tags : Tags w) key, (∀ i, (tags i).toNat < 2 ^ 16) →
  (getAddress16 cfg table tags key).isSome = (getAddress cfg table tags key).isSome)

include agree

theorem hit_of_agree16 (tags : Tags w) (n set : Nat) {tag base : Nat}
    (small : ∀ i, (tags i).toNat < 2 ^ 16) (range : n < 2 ^ w)
    (hash : n % sets = set) (first : table * sets * 8 + set * 8 = base)
    (here : (tags base).toNat = tag)
    (own : tag * sets + set = n) :
    ∃ i < 8, ((tags (base % 2 ^ 32 + i)).toNat * sets + set) % 2 ^ 32 = n := by
  have narrow : sets ≤ 2 ^ 32 := known ▸ (Nat.mod_lt _ (by decide)).le
  have value : (BitVec.ofNat w n).toNat = n := Nat.mod_eq_of_lt range
  have same := agree tags (BitVec.ofNat w n) small
  simp only [getAddress16, getAddress, wayOfMask, searchWays, Option.isSome_map, known,
    hashSetIdx_eq _ _ narrow positive, value, hash] at same
  have found : ((List.range numWays).find? fun j =>
      constructKey (tags (table * sets * numWays + set * numWays + j)) set sets == BitVec.ofNat w
        n).isSome := by
    rw [find?_isSome]
    refine ⟨0, mem_range.mpr (by decide), ?_⟩
    simp only [numWays, first, Nat.add_zero, constructKey, here, own, beq_self_eq_true]
  rw [← same, find?_isSome] at found
  obtain ⟨i, inside, equal⟩ := found
  refine ⟨i, mem_range.mp inside, ?_⟩
  simp only [numWays, wrap32, Nat.mod_add_mod, first, beq_iff_eq] at equal
  exact equal

variable (wide : w = 32 ∨ w = 64)

include wide

theorem slots_of_agree16 : (table + 1) * sets * 8 ≤ 2 ^ 32 := by
  by_contra far
  rw [Nat.add_mul, Nat.add_mul, Nat.one_mul] at far
  have narrow : sets < 2 ^ 32 := known ▸ Nat.mod_lt _ (by decide)
  have room : 2 ^ 32 ≤ 2 ^ w := Nat.pow_le_pow_right (by decide) (by omega)
  -- the tags of the last set are 0, those before it are 1
  have tag : ∀ last i : Nat, (if last ≤ i then 0#w else 1#w).toNat = if last ≤ i then 0 else 1 := by
    intro last i
    split
    · exact BitVec.toNat_zero
    · exact Nat.mod_eq_of_lt (by omega)
  obtain ⟨i, inside, equal⟩ := hit_of_agree16 known positive agree
    (fun i => if table * sets * 8 + (sets - 1) * 8 ≤ i then 0#w else 1#w) (sets - 1) (sets - 1)
    (fun i => by rw [tag]; split <;> decide) (by omega) (Nat.mod_eq_of_lt (by omega)) rfl
      (by rw [tag, if_pos le_rfl])
    (by omega)
  rw [tag, if_neg (by omega)] at equal
  omega

theorem keys_of_agree16 : w = 32 ∨ w = 64 ∧ sets ≤ 2 ^ 16 := by
  rcases wide with narrow | rfl
  · exact .inl narrow
  · refine .inr ⟨rfl, ?_⟩
    by_contra many
    have bound : sets < 2 ^ 32 := known ▸ Nat.mod_lt _ (by decide)
    have hash : (65535 * sets + (sets - 1)) % sets = sets - 1 := Nat.mul_add_mod_of_lt (by omega)
    obtain ⟨i, inside, equal⟩ :=
      hit_of_agree16 known positive agree (fun _ => 65535#64) (65535 * sets + (sets - 1))
      (sets - 1) (fun i => by decide) (by omega) hash rfl rfl rfl
    omega

end Search

/-- The two versions answer alike for all keys and tags of 16 bits exactly if the table ends below
slot `2 ^ 32` and all keys that 16-bit tags can stand for fit 32 bits or `IndexT`. -/
theorem tag_widths_agree_iff (cfg : CacheConfig w C) (table : Nat) (wide : w = 32 ∨ w = 64)
    (positive : 0 < wrap32 cfg.numSets) :
    (∀ (tags : Tags w) key, (∀ i, (tags i).toNat < 2 ^ 16) →
      ∀ cachePtr uvm laneIdx countMisses misses,
      answer cfg cachePtr uvm laneIdx countMisses misses (getAddress16 cfg table tags key) =
        answer cfg cachePtr uvm laneIdx countMisses misses (getAddress cfg table tags key)) ↔
    (table + 1) * wrap32 cfg.numSets * 8 ≤ 2 ^ 32 ∧
      (w = 32 ∨ w = 64 ∧ wrap32 cfg.numSets ≤ 2 ^ 16) := by
  constructor
  · intro alike
    have hit : ∀ row, (answer cfg 0 none 0 false 0 row).hit = row.isSome :=
      fun row => by cases row <;> rfl
    have agree : ∀ (tags : Tags w) key, (∀ i, (tags i).toNat < 2 ^ 16) →
        (getAddress16 cfg table tags key).isSome = (getAddress cfg table tags key).isSome := by
      intro tags key small
      rw [← hit, ← hit, alike tags key small]
    exact ⟨slots_of_agree16 rfl positive agree wide, keys_of_agree16 rfl positive agree wide⟩
  · intro range tags key small cachePtr uvm laneIdx countMisses misses
    rw [getAddress16_eq rfl positive range.1 range.2 small]

def wideCache (numSets : Nat) : CacheConfig 64 Nat := ⟨numSets, 2, 16, 1, -1⟩

theorem tag_widths_agree_small :
    answer (wideCache 16) 4096 none 53 true 0 (getAddress16 (wideCache 16) 1 (fun _ => 3) 53) =
    answer (wideCache 16) 4096 none 53 true 0 (getAddress (wideCache 16) 1 (fun _ => 3) 53) :=
  (tag_widths_agree_iff (wideCache 16) 1 (.inr rfl) (by decide)).mpr (by decide) _ _
    (fun _ => by decide) _ _ _ _ _

/-- Key `65537 * 65536 - 1` with its tag in place: one version finds the row, the other counts a
miss. -/
theorem wide_key_missed : getAddress (wideCache 65537) 0 (fun _ => 65535) 4295032831 =
    some (65536 * 8 * 16) ∧
    getAddress16 (wideCache 65537) 0 (fun _ => 65535) 4295032831 = none := by
  decide +kernel

end EmbedCache.LookupKernels
