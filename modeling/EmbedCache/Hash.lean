import Mathlib.Data.BitVec
import Mathlib.Data.Nat.ModEq
import Mathlib.Tactic

/-! Cache-set hashing of `ec_hash.h`: set index, tag, and the key rebuilt from both.

Keys and tags are `w`-bit words (`IndexT = TagT`). The source casts through the
unsigned counterpart, so every computation is on `toNat`, and the rebuilt key is
reduced modulo `2 ^ w` by the final cast. -/

namespace EmbedCache

variable {w : Nat}

/-- `embed_cache_hash_set_idx`; the result is cast to `uint32_t`. -/
def hashSetIdx (key : BitVec w) (numSets : Nat) : Nat :=
  key.toNat % numSets % 2 ^ 32

def constructTag (key : BitVec w) (numSets : Nat) : BitVec w :=
  BitVec.ofNat w (key.toNat / numSets)

def constructKey (tag : BitVec w) (set numSets : Nat) : BitVec w :=
  BitVec.ofNat w (tag.toNat * numSets + set)

variable (key : BitVec w) (numSets : Nat)

theorem hashSetIdx_eq (fits : numSets ≤ 2 ^ 32) (positive : 0 < numSets) :
    hashSetIdx key numSets = key.toNat % numSets := by
  have bound := Nat.mod_lt key.toNat positive
  exact Nat.mod_eq_of_lt (by omega)

theorem hashSetIdx_lt (positive : 0 < numSets) :
    hashSetIdx key numSets < numSets :=
  lt_of_le_of_lt (Nat.mod_le _ _) (Nat.mod_lt _ positive)

theorem constructTag_toNat :
    (constructTag key numSets).toNat = key.toNat / numSets := by
  rw [constructTag, BitVec.toNat_ofNat]
  exact Nat.mod_eq_of_lt (lt_of_le_of_lt (Nat.div_le_self _ _) key.isLt)

/-- A tag stored in the set of `key` rebuilds `key` exactly when it agrees with the
key's own tag after the multiplication by the number of sets, modulo `2 ^ w`. -/
theorem constructKey_eq_iff (tag key : BitVec w) (numSets : Nat) :
    constructKey tag (key.toNat % numSets) numSets = key ↔
      tag.toNat * numSets % 2 ^ w = key.toNat / numSets * numSets := by
  have split : key.toNat / numSets * numSets + key.toNat % numSets = key.toNat :=
    Nat.div_add_mod' key.toNat numSets
  have bound := key.isLt
  have small : key.toNat / numSets * numSets < 2 ^ w := by omega
  rw [← BitVec.toNat_inj, constructKey, BitVec.toNat_ofNat]
  constructor
  · intro same
    have congruent : tag.toNat * numSets + key.toNat % numSets ≡
        key.toNat / numSets * numSets + key.toNat % numSets [MOD 2 ^ w] := by
      rw [split, Nat.ModEq, same, Nat.mod_eq_of_lt bound]
    have cancelled := Nat.ModEq.add_right_cancel' _ congruent
    rw [Nat.ModEq, Nat.mod_eq_of_lt small] at cancelled
    exact cancelled
  · intro same
    rw [Nat.add_mod, same, Nat.add_mod_mod, split, Nat.mod_eq_of_lt bound]

/-- The round trip promised next to the helpers in `ec_hash.h`. -/
theorem constructKey_constructTag :
    constructKey (constructTag key numSets) (key.toNat % numSets) numSets = key := by
  have small : key.toNat / numSets * numSets < 2 ^ w :=
    lt_of_le_of_lt (Nat.div_mul_le_self _ _) key.isLt
  rw [constructKey_eq_iff, constructTag_toNat, Nat.mod_eq_of_lt small]

theorem constructKey_constructTag_hash (fits : numSets ≤ 2 ^ 32) (positive : 0 < numSets) :
    constructKey (constructTag key numSets) (hashSetIdx key numSets) numSets = key := by
  rw [hashSetIdx_eq key numSets fits positive, constructKey_constructTag]

def NonNegative (key : BitVec w) : Prop := 0 ≤ key.toInt

instance (key : BitVec w) : Decidable (NonNegative key) :=
  inferInstanceAs (Decidable (0 ≤ key.toInt))

theorem NonNegative.two_mul_lt {key : BitVec w} (nonnegative : NonNegative key) :
    2 * key.toNat < 2 ^ w := by
  have bound := key.isLt
  rw [NonNegative, BitVec.toInt_eq_toNat_cond] at nonnegative
  split at nonnegative <;> omega

theorem emptyMarker_toNat : (-1 : BitVec w).toNat = 2 ^ w - 1 := by
  have ones : (-1 : BitVec w) = BitVec.allOnes w := BitVec.neg_one_eq_allOnes
  rw [ones, BitVec.toNat_allOnes]

/-- The tag of a non-negative key is never the empty marker `-1`. -/
theorem constructTag_ne_emptyMarker (wide : 2 ≤ w) (nonnegative : NonNegative key) :
    constructTag key numSets ≠ -1 := by
  intro same
  have bound := nonnegative.two_mul_lt
  have quotient := Nat.div_le_self key.toNat numSets
  have power : 2 ^ 2 ≤ 2 ^ w := Nat.pow_le_pow_right (by omega) wide
  have value := congrArg BitVec.toNat same
  rw [constructTag_toNat, emptyMarker_toNat] at value
  omega

theorem top_mul_mod {n m : Nat} (fits : n ≤ m) (positive : 0 < n) : (m - 1) * n % m = m - n := by
  rcases Nat.exists_eq_add_of_le fits with ⟨d, rfl⟩
  rcases Nat.exists_eq_succ_of_ne_zero positive.ne' with ⟨k, rfl⟩
  have expand : (k.succ + d - 1) * k.succ = d + (k.succ + d) * k := by
    have less : k.succ + d - 1 = k + d := by omega
    rw [less, Nat.succ_eq_add_one]
    ring
  rw [expand, Nat.add_mul_mod_self_left, Nat.mod_eq_of_lt (by omega)]
  omega

/-- The empty marker `-1` never rebuilds a non-negative key, as long as the sets
do not outnumber the non-negative keys. -/
theorem emptyMarker_not_nonNegative (positive : 0 < numSets) (fits : numSets ≤ 2 ^ 32)
    (room : 2 * numSets ≤ 2 ^ w)
    (nonnegative : NonNegative key) :
    constructKey (-1 : BitVec w) (hashSetIdx key numSets) numSets ≠ key := by
  rw [hashSetIdx_eq key numSets fits positive, Ne, constructKey_eq_iff]
  intro same
  have bound := nonnegative.two_mul_lt
  have quotient := Nat.div_mul_le_self key.toNat numSets
  rw [emptyMarker_toNat, top_mul_mod (by omega) positive] at same
  omega

end EmbedCache
