import Mathlib.Data.BitVec
import Mathlib.Data.Finset.Card
import Mathlib.Tactic

/-! `generic_bitmask` (`bit_ops.hpp`): words of a hit mask and the iteration over their bits. -/

namespace EmbedCache.Bitmask

open BitVec

variable {b : Nat}

/-- `ceil_div(n, num_bits)`. -/
def maskSize (b n : Nat) : Nat := (n + b - 1) / b

variable (repr : BitVec b)

/-- `popcount`. -/
def count : Nat := (List.range b).countP fun i => repr.getLsbD i

def hasNext : Bool := repr ≠ 0

/-- `countr_zero`. -/
def next : Nat := repr.ctz.toNat

def skip : BitVec b := repr &&& (repr - 1#b)

def invert : BitVec b := ~~~repr

def join (repr other : BitVec b) : BitVec b := repr ||| other

def single (n : Nat) : BitVec b := 1#b <<< n

def set (n : Nat) : BitVec b := join repr (single n)

def firstBits (n : Nat) : BitVec b := invert (BitVec.allOnes b <<< n)

def clip (n : Nat) : BitVec b := if n < b then repr &&& firstBits n else repr

theorem maskSize_pos (wide : 0 < b) {n : Nat} (some_keys : 0 < n) : 0 < maskSize b n :=
  Nat.div_pos (by omega) wide

theorem word_start_lt (wide : 0 < b) {n word : Nat} (inside : word < maskSize b n) :
    word * b < n := by
  have bound := Nat.mul_le_of_le_div b (word + 1) (n + b - 1) inside
  rw [Nat.succ_mul] at bound
  omega

theorem word_lt (wide : 0 < b) {n q : Nat} (inside : q < n) : q / b < maskSize b n := by
  rw [maskSize, Nat.div_lt_iff_lt_mul wide]
  have division := Nat.div_add_mod (n + b - 1) b
  have rest := Nat.mod_lt (n + b - 1) wide
  rw [Nat.mul_comm b] at division
  omega

variable (repr : BitVec b)

theorem getLsbD_invert {i : Nat} (inside : i < b) : (invert repr).getLsbD i = !repr.getLsbD i := by
  simp [invert, inside]

theorem getLsbD_join (repr other : BitVec b) (i : Nat) :
    (join repr other).getLsbD i = (repr.getLsbD i || other.getLsbD i) :=
  BitVec.getLsbD_or

theorem getLsbD_set (n : Nat) {i : Nat} (inside : i < b) :
    (set repr n).getLsbD i = (repr.getLsbD i || decide (i = n)) := by
  rw [set, getLsbD_join]
  congr 1
  simp only [single, getLsbD_shiftLeft, getLsbD_one]
  by_cases same : i = n
  · simp [same]
    omega
  · simp [same]
    omega

theorem getLsbD_clip (n : Nat) {i : Nat} (inside : i < b) :
    (clip repr n).getLsbD i = (repr.getLsbD i && decide (i < n)) := by
  rw [clip]
  split
  · rw [getLsbD_and, firstBits, getLsbD_invert _ inside]
    congr 1
    simp [inside]
  · have below : i < n := by omega
    simp [below]

variable {repr : BitVec b}

theorem next_lt (more : hasNext repr = true) : next repr < b := by
  have nonzero : repr ≠ 0#b := by simpa [hasNext] using more
  by_contra outside
  have bit : repr.getLsbD (next repr) = true := getLsbD_true_ctz_of_ne_zero nonzero
  rw [getLsbD_of_ge _ _ (Nat.le_of_not_lt outside)] at bit
  exact Bool.false_ne_true bit

theorem getLsbD_next (more : hasNext repr = true) : repr.getLsbD (next repr) = true :=
  BitVec.getLsbD_true_ctz_of_ne_zero (by simpa [hasNext] using more)

theorem getLsbD_of_not_hasNext (last : hasNext repr = false) (i : Nat) :
    repr.getLsbD i = false := by
  have zero : repr = 0#b := by simpa [hasNext] using last
  rw [zero, getLsbD_zero]

/-- One less flips the lowest one and what is below it. -/
theorem testBit_sub_one {n c : Nat} (low : ∀ i < c, n.testBit i = false)
    (bit : n.testBit c = true) (i : Nat) :
    (n &&& (n - 1)).testBit i = (n.testBit i && decide (i ≠ c)) := by
  have residue : n % 2 ^ (c + 1) = 2 ^ c := by
    apply Nat.eq_of_testBit_eq
    intro j
    rw [Nat.testBit_mod_two_pow, Nat.testBit_two_pow]
    rcases Nat.lt_trichotomy j c with below | same | above
    · simp [low j below, below.ne']
    · subst same
      simp [bit]
    · simp only [above.ne, decide_false]
      simp
      omega
  have split := Nat.div_add_mod n (2 ^ (c + 1))
  rw [residue] at split
  have power : 0 < 2 ^ c := Nat.two_pow_pos c
  have double : 2 ^ c < 2 ^ (c + 1) := Nat.pow_lt_pow_right (by omega) (by omega)
  have whole : ∀ j, n.testBit j = if j < c + 1 then (2 ^ c).testBit j
      else (n / 2 ^ (c + 1)).testBit (j - (c + 1)) := by
    intro j
    conv_lhs => rw [← split]
    exact Nat.testBit_two_pow_mul_add _ double j
  have less : ∀ j, (n - 1).testBit j =
      if j < c + 1 then (2 ^ c - 1).testBit j else (n / 2 ^ (c + 1)).testBit (j - (c + 1)) := by
    intro j
    have value : n - 1 = 2 ^ (c + 1) * (n / 2 ^ (c + 1)) + (2 ^ c - 1) := by omega
    conv_lhs => rw [value]
    exact Nat.testBit_two_pow_mul_add _ (by omega) j
  rw [Nat.testBit_and]
  rcases Nat.lt_trichotomy i c with below | same | above
  · simp [low i below]
  · subst same
    rw [less i, if_pos (by omega), Nat.testBit_two_pow_sub_one]
    simp
  · have high : ¬ i < c + 1 := by omega
    rw [less i, whole i, if_neg high, if_neg high]
    simp [above.ne']

theorem getLsbD_skip (more : hasNext repr = true) (i : Nat) :
    (skip repr).getLsbD i = (repr.getLsbD i && decide (i ≠ next repr)) := by
  have nonzero : repr ≠ 0#b := by simpa [hasNext] using more
  have positive : 0 < repr.toNat :=
    Nat.pos_of_ne_zero fun zero => nonzero (eq_of_toNat_eq (by simpa using zero))
  have less : (repr - 1#b).toNat = repr.toNat - 1 := by
    have wide : 0 < b := lt_of_le_of_lt (Nat.zero_le _) (next_lt more)
    have one : (1#b).toNat = 1 := by
      rw [toNat_ofNat]
      exact Nat.mod_eq_of_lt (Nat.one_lt_two_pow (by omega))
    rw [toNat_sub_of_le (by rw [le_def, one]; exact positive), one]
  have low : ∀ j < next repr, repr.toNat.testBit j = false := fun j below =>
    getLsbD_false_of_lt_ctz below
  have bit : repr.toNat.testBit (next repr) = true := getLsbD_next more
  rw [skip, BitVec.getLsbD, toNat_and, less]
  exact testBit_sub_one low bit i

theorem count_eq_card :
    count repr = ((Finset.range b).filter fun j => repr.getLsbD j = true).card := by
  have distinct : ((List.range b).filter fun i => repr.getLsbD i).Nodup := List.nodup_range.filter _
  rw [count, List.countP_eq_length_filter, ← List.toFinset_card_of_nodup distinct]
  congr 1
  ext j
  simp

end EmbedCache.Bitmask
