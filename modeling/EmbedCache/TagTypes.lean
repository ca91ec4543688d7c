import EmbedCache.Hash
import EmbedCache.ModifyList

/-! `ec_hash.h` with a tag type of its own, and the types `check_tag_key_config` accepts. -/

namespace EmbedCache

/-- What `std::numeric_limits` tells of a key or tag type. -/
structure NumericType where
  isInteger : Bool
  isSigned : Bool
  width : Nat

namespace NumericType

variable (tag key : NumericType) (numSets : Nat)

def max : Nat := if key.isSigned then 2 ^ (key.width - 1) - 1 else 2 ^ key.width - 1

def value (word : BitVec key.width) : Int := if key.isSigned then word.toInt else word.toNat

/-- `check_tag_key_config`: the error thrown, or the maximum key it logs, if any. -/
def checkTagKeyConfig : Except ECError (Option Nat) :=
  if !tag.isInteger || !key.isInteger then .error .badKeyTagConfig
  else if tag.isSigned != key.isSigned then .error .badKeyTagConfig
  else .ok (if tag.max < key.max then some ((tag.max * numSets + (numSets - 1)) % 2 ^ 64) else none)

/-- The tag is cast from the unsigned key type. -/
def tagOf (word : BitVec key.width) : BitVec tag.width := BitVec.ofNat _ (word.toNat / numSets)

/-- The cast of a tag to the unsigned key type extends its sign. -/
def widen (word : BitVec tag.width) : BitVec key.width :=
  if tag.isSigned then word.signExtend _ else word.setWidth _

def keyOf (word : BitVec tag.width) (set : Nat) : BitVec key.width :=
  constructKey (tag.widen key word) set numSets

theorem toNat_eq_value {word : BitVec key.width} (nonnegative : 0 ≤ key.value word) :
    (word.toNat : Int) = key.value word := by
  have bound := word.isLt
  rw [value, BitVec.toInt_eq_toNat_cond] at *
  split_ifs at * <;> omega

theorem lt_of_le_max {n : Nat} (held : n ≤ tag.max) : n < 2 ^ tag.width ∧
    (tag.isSigned → 2 * n < 2 ^ tag.width) := by
  have positive := Nat.two_pow_pos (tag.width - 1)
  have double : 2 ^ tag.width = 2 * 2 ^ (tag.width - 1) ∨ 2 ^ tag.width = 1 ∧
      2 ^ (tag.width - 1) = 1 := by
    rcases Nat.eq_zero_or_pos tag.width with zero | width
    · simp [zero]
    · exact .inl (by rw [← pow_succ', Nat.sub_add_cancel width])
  unfold max at held
  split_ifs at held with signed
  · constructor <;> intros <;> omega
  · exact ⟨by omega, fun h => absurd h signed⟩

theorem toNat_widen {n : Nat} (small : n < 2 ^ key.width)
    (held : n ≤ tag.max ∨ key.width ≤ tag.width) :
    (tag.widen key (BitVec.ofNat _ n)).toNat = n := by
  have fits : n < 2 ^ tag.width := by
    rcases held with held | wide
    · exact (tag.lt_of_le_max held).1
    · exact small.trans_le (Nat.pow_le_pow_right (by omega) wide)
  have same : tag.widen key (BitVec.ofNat _ n) = (BitVec.ofNat tag.width n).setWidth _ := by
    unfold widen
    split_ifs with signed
    · rcases held with held | wide
      · apply BitVec.signExtend_eq_setWidth_of_msb_false
        rw [BitVec.msb_eq_false_iff_two_mul_lt, BitVec.toNat_ofNat, Nat.mod_eq_of_lt fits]
        exact (tag.lt_of_le_max held).2 signed
      · exact BitVec.signExtend_eq_setWidth_of_le _ wide
    · rfl
  rw [same, BitVec.toNat_setWidth, BitVec.toNat_ofNat, Nat.mod_eq_of_lt fits,
    Nat.mod_eq_of_lt small]

theorem max_lt_iff (signs : tag.isSigned = key.isSigned) (width : 0 < tag.width) :
    tag.max < key.max ↔ tag.width < key.width := by
  have powers (m n : Nat) : 2 ^ m - 1 < 2 ^ n - 1 ↔ m < n := by
    have mono := Nat.pow_lt_pow_iff_right (a := 2) (n := m) (m := n) (by omega)
    have left := Nat.two_pow_pos m
    have right := Nat.two_pow_pos n
    omega
  rw [max, max, signs]
  split_ifs
  · rw [powers]
    omega
  · exact powers _ _

variable {numSets}

theorem of_accepted {logged : Option Nat}
    (accepted : tag.checkTagKeyConfig key numSets = .ok logged) :
    tag.isSigned = key.isSigned ∧
      logged = if tag.max < key.max then some ((tag.max * numSets + (numSets - 1)) % 2 ^ 64)
        else none := by
  rw [checkTagKeyConfig] at accepted
  split at accepted
  · cases accepted
  · split at accepted
    · cases accepted
    · rename_i signs
      exact ⟨by simpa using signs, (Except.ok.inj accepted).symm⟩

theorem keyOf_tagOf (sets : 0 < numSets) (fits : numSets ≤ 2 ^ 32) {word : BitVec key.width}
    (held : word.toNat / numSets ≤ tag.max ∨ key.width ≤ tag.width) :
    tag.keyOf key numSets (tag.tagOf key numSets word) (hashSetIdx word numSets) = word := by
  have small := (Nat.div_le_self word.toNat numSets).trans_lt word.isLt
  have widened : tag.widen key (tag.tagOf key numSets word) = constructTag word numSets := by
    apply BitVec.eq_of_toNat_eq
    rw [constructTag_toNat]
    exact tag.toNat_widen key small held
  rw [keyOf, widened, constructKey_constructTag_hash word numSets fits sets]

/-- The keys that a configuration supports: all of them, or those from 0 to the logged maximum. -/
def Supported (logged : Option Nat) (word : BitVec key.width) : Prop :=
  ∀ maximum ∈ logged, 0 ≤ key.value word ∧ key.value word ≤ maximum

theorem tag_hash_bijection (keys : key.width = 32 ∨ key.width = 64)
    (tags : 0 < tag.width ∧ tag.width ≤ 32 ∨ tag.width = 64)
    (sets : 0 < numSets) (fits : numSets < 2 ^ 32) {logged : Option Nat}
    (accepted : tag.checkTagKeyConfig key numSets = .ok logged) :
    (logged = if tag.width < key.width then some (tag.max * numSets + numSets - 1) else none) ∧
      (∀ word, key.Supported logged word → hashSetIdx word numSets < numSets ∧
        tag.keyOf key numSets (tag.tagOf key numSets word) (hashSetIdx word numSets) = word) ∧
      ∀ word other, key.Supported logged word → key.Supported logged other →
        hashSetIdx word numSets = hashSetIdx other numSets →
        tag.tagOf key numSets word = tag.tagOf key numSets other → word = other := by
  have ⟨signs, limit⟩ := tag.of_accepted key accepted
  simp only [tag.max_lt_iff key signs (by omega)] at limit
  have exact : tag.width < key.width →
      (tag.max * numSets + (numSets - 1)) % 2 ^ 64 = tag.max * numSets + numSets - 1 := by
    intro narrow
    have word := (tag.lt_of_le_max (le_refl tag.max)).1
    have power : 2 ^ tag.width ≤ 2 ^ 32 := Nat.pow_le_pow_right (by omega) (by omega)
    have product : (tag.max + 1) * numSets ≤ 2 ^ 32 * numSets := Nat.mul_le_mul_right _ (by omega)
    rw [Nat.succ_mul] at product
    rw [Nat.mod_eq_of_lt (by omega)]
    omega
  replace limit : logged = if tag.width < key.width then some (tag.max * numSets + numSets - 1)
    else none := by
    split_ifs at limit ⊢ with narrow
    · rw [limit, exact narrow]
    · exact limit
  have round : ∀ word, key.Supported logged word →
      tag.keyOf key numSets (tag.tagOf key numSets word) (hashSetIdx word numSets) = word := by
    intro word supported
    apply tag.keyOf_tagOf key sets fits.le
    by_cases narrow : tag.width < key.width
    · rw [if_pos narrow] at limit
      have ⟨nonnegative, most⟩ := supported _ limit
      have value := key.toNat_eq_value nonnegative
      left
      rw [← Nat.lt_succ_iff, Nat.div_lt_iff_lt_mul sets, Nat.succ_mul]
      omega
    · exact .inr (by omega)
  refine ⟨limit, fun word supported => ⟨hashSetIdx_lt word numSets sets, round word supported⟩, ?_⟩
  intro word other first second set tags
  rw [← round word first, set, tags, round other second]

theorem tag_hash_bijection_int16 :
    checkTagKeyConfig ⟨true, true, 16⟩ ⟨true, true, 64⟩ 3 = .ok (some 98303) ∧
    keyOf ⟨true, true, 16⟩ ⟨true, true, 64⟩ 3 (tagOf ⟨true, true, 16⟩ ⟨true, true, 64⟩ 3 98303)
      (hashSetIdx 98303#64 3) = 98303 := by
  have accepted : checkTagKeyConfig ⟨true, true, 16⟩ ⟨true, true, 64⟩ 3 = .ok (some 98303) := rfl
  have bijection := tag_hash_bijection _ _ (.inr rfl) (by decide) (by decide) (by decide) accepted
  exact ⟨accepted, (bijection.2.1 98303 (by simp [Supported, value])).2⟩

end NumericType

end EmbedCache
