import Mathlib.Data.BitVec
import Mathlib.Tactic

/-! Numbers as bytes in memory, the low byte first. -/

namespace EmbedCache.Lib

open List

def littleEndian (n : Nat) (i : Nat) : UInt8 := UInt8.ofNat (n / 256 ^ i)

def ofLittleEndian (size : Nat) (bytes : Nat → UInt8) : BitVec (8 * size) :=
  BitVec.ofNat _ ((List.range size).map fun i => (bytes i).toNat * 256 ^ i).sum

theorem ofLittleEndian_congr {size : Nat} {first second : Nat → UInt8}
    (same : ∀ i < size, first i = second i) :
    ofLittleEndian size first = ofLittleEndian size second := by
  have digits : (List.range size).map (fun i => (first i).toNat * 256 ^ i) =
      (List.range size).map fun i => (second i).toNat * 256 ^ i := by
    apply map_congr_left
    intro i member
    rw [same i (mem_range.mp member)]
  rw [ofLittleEndian, digits, ofLittleEndian]

theorem mod_eq_of_bytes {size m n : Nat} (bytes : ∀ i < size, littleEndian m i = littleEndian n i) :
    m % 256 ^ size = n % 256 ^ size := by
  induction size with
  | zero => simp [Nat.mod_one]
  | succ size ih =>
    have low := ih fun i inside => bytes i (by omega)
    have top : m / 256 ^ size % 256 = n / 256 ^ size % 256 := by
      have last := congrArg UInt8.toNat (bytes size (by omega))
      simpa [littleEndian, UInt8.toNat_ofNat'] using last
    rw [Nat.mod_pow_succ, Nat.mod_pow_succ, low, top]

theorem eq_of_bytes {size : Nat} {x y : BitVec (8 * size)}
    (bytes : ∀ i < size, littleEndian x.toNat i = littleEndian y.toNat i) : x = y := by
  have same := mod_eq_of_bytes bytes
  have power : 256 ^ size = 2 ^ (8 * size) := by rw [pow_mul]; rfl
  rw [power, Nat.mod_eq_of_lt x.isLt, Nat.mod_eq_of_lt y.isLt] at same
  exact BitVec.eq_of_toNat_eq same

theorem sum_littleEndian (n size : Nat) :
    ((List.range size).map fun i => (littleEndian n i).toNat * 256 ^ i).sum = n % 256 ^ size := by
  induction size with
  | zero => simp [Nat.mod_one]
  | succ size ih =>
    have top : (littleEndian n size).toNat = n / 256 ^ size % 256 := by
      simp [littleEndian, UInt8.toNat_ofNat']
    rw [range_succ, map_append, sum_append, ih, Nat.mod_pow_succ]
    simp only [map_cons, map_nil, sum_singleton, top]
    ring

theorem sum_bytes_lt (bytes : Nat → UInt8) (size : Nat) :
    ((List.range size).map fun i => (bytes i).toNat * 256 ^ i).sum < 256 ^ size := by
  induction size with
  | zero => exact Nat.one_pos
  | succ size ih =>
    have byte : (bytes size).toNat ≤ 255 := Nat.le_of_lt_succ (bytes size).toNat_lt
    have top : (bytes size).toNat * 256 ^ size ≤ 255 * 256 ^ size := Nat.mul_le_mul_right _ byte
    rw [range_succ, map_append, sum_append, map_singleton, sum_singleton, pow_succ]
    omega

theorem toNat_ofLittleEndian (size : Nat) (bytes : Nat → UInt8) :
    (ofLittleEndian size bytes).toNat =
      ((List.range size).map fun i => (bytes i).toNat * 256 ^ i).sum := by
  have small := sum_bytes_lt bytes size
  have power : 256 ^ size = 2 ^ (8 * size) := by rw [pow_mul]; rfl
  rw [ofLittleEndian, BitVec.toNat_ofNat, Nat.mod_eq_of_lt (power ▸ small)]

theorem toNat_ofLittleEndian_extend {size more : Nat} (le : size ≤ more) {short long : Nat → UInt8}
    (same : ∀ i < size, long i = short i) (zero : ∀ i, size ≤ i → long i = 0) :
    (ofLittleEndian more long).toNat = (ofLittleEndian size short).toNat := by
  rw [toNat_ofLittleEndian, toNat_ofLittleEndian]
  induction more, le using Nat.le_induction with
  | base =>
    apply congrArg List.sum
    apply map_congr_left
    intro i member
    rw [same i (mem_range.mp member)]
  | succ more le ih =>
    rw [range_succ, map_append, sum_append, ih, map_singleton, sum_singleton, zero more le]
    simp

theorem ofLittleEndian_littleEndian {size : Nat} (x : BitVec (8 * size)) {bytes : Nat → UInt8}
    (same : ∀ i < size, bytes i = littleEndian x.toNat i) : ofLittleEndian size bytes = x := by
  have power : 256 ^ size = 2 ^ (8 * size) := by rw [pow_mul]; rfl
  rw [ofLittleEndian_congr same, ofLittleEndian, sum_littleEndian, power, Nat.mod_eq_of_lt x.isLt]
  simp

end EmbedCache.Lib
