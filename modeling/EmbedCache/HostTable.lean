import Mathlib.Data.Int.Log
import Mathlib.Data.Rat.Floor
import EmbedCache.Lib.Bytes
import EmbedCache.Lib.LittleEndian

/-! What the host tables share (`host_table.hpp`, `host_table_detail.hpp`): data types,
partitioners, the overflow policy and the kernel that adds updates to stored rows. -/

namespace EmbedCache.HostTable

open Lib

/-! ### Data types -/

inductive DataTypeT
  | unknown
  | float32
  | bfloat
  | float16
  | e4m3
  | e5m2
  | float64
  | qint8RowwiseF32
  | qint8RowwiseF16
  | quint8RowwiseF32
  | quint8RowwiseF16
  deriving DecidableEq, Repr

def DataTypeT.size : DataTypeT → Nat
  | .float32 => 4
  | .bfloat => 2
  | .float16 => 2
  | .float64 => 8
  | _ => 1

/-- The types of `pick_cpu_update_kernel`; others throw. -/
def DataTypeT.accumulates : DataTypeT → Bool
  | .float32 => true
  | .float16 => true
  | .bfloat => true
  | .e4m3 => true
  | .e5m2 => true
  | .float64 => true
  | _ => false

/-- `static_cast<T>(t + u)` on the bytes of an element of the table and of the update. -/
abbrev Arithmetic := DataTypeT → DataTypeT → List UInt8 → List UInt8 → Nat → UInt8

/-- `n /= sizeof(U)`, which is carried out in `uint64_t`. -/
def elementCount (updateType : DataTypeT) (updateSize : Int) : Nat :=
  (updateSize % 2 ^ 64).toNat / updateType.size

def cpuUpdateKernel (add : Arithmetic) (tableType updateType : DataTypeT) (count : Nat)
    (update : Nat → UInt8)
    (memory : Nat → UInt8) (off : Nat) : Nat → UInt8 :=
  (List.range count).foldl
    (fun memory i =>
      let element := off + i * tableType.size
      blit memory element tableType.size
        (add tableType updateType (readRange memory element tableType.size)
          (readRange update (i * updateType.size) updateType.size)))
    memory

section Kernel

variable (add : Arithmetic) (tableType updateType : DataTypeT) (update : Nat → UInt8)

theorem cpuUpdateKernel_succ (count : Nat) (memory : Nat → UInt8) (off : Nat) :
    cpuUpdateKernel add tableType updateType (count + 1) update memory off =
      let done := cpuUpdateKernel add tableType updateType count update memory off
      let element := off + count * tableType.size
      blit done element tableType.size
        (add tableType updateType (readRange done element tableType.size)
          (readRange update (count * updateType.size) updateType.size)) := by
  simp only [cpuUpdateKernel, List.range_succ, List.foldl_append, List.foldl_cons, List.foldl_nil]

theorem cpuUpdateKernel_outside {count : Nat} {memory : Nat → UInt8} {off a : Nat}
    (outside : a < off ∨ off + count * tableType.size ≤ a) :
    cpuUpdateKernel add tableType updateType count update memory off a = memory a := by
  induction count with
  | zero => rfl
  | succ count ih =>
    rw [Nat.succ_mul] at outside
    rw [cpuUpdateKernel_succ]
    dsimp only
    rw [blit_outside _ _ _ _ _ (by omega)]
    exact ih (by omega)

theorem cpuUpdateKernel_congr {count size : Nat} (fits : count * tableType.size ≤ size)
    {memory other : Nat → UInt8}
    {off place : Nat} (agree : ∀ i < size, memory (off + i) = other (place + i)) {i : Nat}
    (inside : i < size) :
    cpuUpdateKernel add tableType updateType count update memory off (off + i) =
      cpuUpdateKernel add tableType updateType count update other place (place + i) := by
  induction count generalizing i with
  | zero => exact agree i inside
  | succ count ih =>
    rw [Nat.succ_mul] at fits
    have done := fun {i : Nat} (inside : i < size) => ih (by omega) inside
    rw [cpuUpdateKernel_succ, cpuUpdateKernel_succ]
    dsimp only
    -- both copies read the same element, so they write the same one
    have element : readRange (cpuUpdateKernel add tableType updateType count update memory off)
          (off + count * tableType.size) tableType.size =
        readRange (cpuUpdateKernel add tableType updateType count update other place)
          (place + count * tableType.size) tableType.size := by
      apply readRange_congr
      intro b below
      rw [Nat.add_assoc, Nat.add_assoc]
      exact done (by omega)
    rw [element]
    by_cases here : count * tableType.size ≤ i ∧ i < count * tableType.size + tableType.size
    · rw [blit_inside _ _ _ _ _ (by omega) (by omega), blit_inside _ _ _ _ _ (by omega) (by omega)]
      congr 1
      omega
    · rw [blit_outside _ _ _ _ _ (by omega), blit_outside _ _ _ _ _ (by omega)]
      exact done inside

end Kernel

/-! ### Partitioners -/

inductive Partitioner
  | alwaysZero
  | fowlerNollVo
  | murmur3
  | rrxmrrxmsx0
  | stdHash
  deriving DecidableEq, Repr

def Partitioner.mix : Partitioner → BitVec 64 → BitVec 64
  | .alwaysZero, _ => 0
  | .fowlerNollVo, x => (x ^^^ 14695981039346656037) * 591798841
  | .murmur3, x =>
    let x := x ^^^ x >>> 33
    let x := x * 0xff51afd7ed558ccd
    let x := x ^^^ x >>> 33
    let x := x * 0xc4ceb9fe1a85ec53
    x ^^^ x >>> 33
  | .rrxmrrxmsx0, x =>
    let x := x ^^^ (x.rotateRight 25 ^^^ x.rotateRight 50)
    let x := x * 0xa24baed4963ee407
    let x := x ^^^ (x.rotateRight 24 ^^^ x.rotateRight 49)
    let x := x * 0x9fb21c651e98df25
    x ^^^ x >>> 28
  | .stdHash, x => x

def Partitioner.part (partitioner : Partitioner) (numParts : Nat) (hash : BitVec 64) : Nat :=
  (partitioner.mix hash &&& BitVec.ofNat 64 (numParts - 1)).toNat

theorem Partitioner.part_lt (partitioner : Partitioner) {numParts : Nat} (some_parts : 0 < numParts)
    (hash : BitVec 64) :
    partitioner.part numParts hash < numParts := by
  have masked : partitioner.part numParts hash ≤ (numParts - 1) % 2 ^ 64 := by
    rw [part, BitVec.toNat_and, BitVec.toNat_ofNat]
    exact Nat.and_le_right
  have wrapped : (numParts - 1) % 2 ^ 64 ≤ numParts - 1 := Nat.mod_le _ _
  omega

/-! ### Overflow policy -/

inductive OverflowHandler
  | evictRandom
  | evictLRU
  | evictLFU
  deriving DecidableEq, Repr

def OverflowHandler.metaSize : OverflowHandler → Nat
  | .evictRandom => 0
  | .evictLRU => 8
  | .evictLFU => 8

/-- A policy that `check` accepts. -/
structure OverflowPolicyConfig where
  overflowMargin : Nat
  handler : OverflowHandler
  resolutionMargin : ℚ
  resolutionMargin_nonneg : 0 ≤ resolutionMargin
  resolutionMargin_le_one : resolutionMargin ≤ 1

/-- Above two entries, one is kept. -/
def OverflowPolicyConfig.keepingOne (handler : OverflowHandler) : OverflowPolicyConfig :=
  ⟨2, handler, 1 / 2, by norm_num, by norm_num⟩

/-- The nearest number with 53 significant bits, the even one of two. -/
def nearestDouble (q : ℚ) : ℚ :=
  if q = 0 then 0
  else
    let unit : ℚ := 2 ^ (Int.log 2 q - 52)
    let low := ⌊q / unit⌋
    let rest := q / unit - low
    let rounded := if rest < 1 / 2 ∨ (rest = 1 / 2 ∧ low % 2 = 0) then low else low + 1
    rounded * unit

def OverflowPolicyConfig.resolution (policy : OverflowPolicyConfig) : Nat :=
  ⌊nearestDouble (nearestDouble policy.overflowMargin * policy.resolutionMargin)⌋.toNat

/-- `update_meta_data` on the value of the metadata: the time, or one more use. -/
def OverflowHandler.touch (handler : OverflowHandler) (lruTime metadata : BitVec 64) : BitVec 64 :=
  match handler with
  | .evictRandom => metadata
  | .evictLRU => lruTime
  | .evictLFU => metadata + 1

def OverflowHandler.initial (handler : OverflowHandler) (lruValue : BitVec 64) : BitVec 64 :=
  match handler with
  | .evictRandom => 0
  | .evictLRU => lruValue
  | .evictLFU => 1

structure Shuffle (α : Type*) where
  order : List α → List α
  perm : ∀ items, (order items).Perm items

def Shuffle.given {α : Type*} : Shuffle α := ⟨id, fun _ => List.Perm.refl _⟩

theorem rank_take_le_drop {α ρ : Type*} [LinearOrder ρ] (rank : α → ρ) (entries : List α)
    (mid : Nat) {early late : α}
    (front : early ∈ (entries.mergeSort fun a b => rank a ≤ rank b).take mid)
    (behind : late ∈ (entries.mergeSort fun a b => rank a ≤ rank b).drop mid) :
      rank early ≤ rank late := by
  have sorted : (entries.mergeSort fun a b => rank a ≤ rank b).Pairwise fun a b =>
      decide (rank a ≤ rank b) = true := by
    apply List.pairwise_mergeSort
    · intro a b c first second
      rw [decide_eq_true_iff] at first second ⊢
      exact first.trans second
    · intro a b
      rw [Bool.or_eq_true, decide_eq_true_iff, decide_eq_true_iff]
      exact le_total _ _
  rw [← List.take_append_drop mid (List.mergeSort _ _), List.pairwise_append] at sorted
  exact of_decide_eq_true (sorted.2.2 early front late behind)

end EmbedCache.HostTable
