import Mathlib.Data.Nat.Digits.Defs
import EmbedCache.Lib.Bytes
import EmbedCache.Lib.LittleEndian

/-! Names in Redis (`redis_cluster_table.cpp`): hashes of a partition and keys of the string mode.

A hash is named by the text of table and partition and a letter for what it holds. In
string mode a key is its bytes, behind those of the namespace if there is one. -/

namespace EmbedCache.RedisClusterTable

open Lib List

/-! ### Hash names -/

/-- `%ld`. -/
def renderLong (n : Int) : List Char :=
  if n < 0 then '-' :: Nat.toDigits 10 n.natAbs else Nat.toDigits 10 n.natAbs

/-- The text `nv_nve_table` and an opening brace. -/
def nameHead : List Char := ['n', 'v', '_', 'n', 'v', 'e', '_', 't', 'a', 'b', 'l', 'e', '\x7b']

variable (tableId partIdx : Int) (suffix : Char)

def hkeyText : List Char :=
  nameHead ++ (renderLong tableId ++ '/' :: (renderLong partIdx ++ ['\x7d', suffix]))

/-- `HKey`: what `snprintf` leaves in the buffer, up to the terminator, and the size of the view. -/
structure HKey where
  cStr : List Char
  size : Nat

/-- The constructor; `none` is an exception. A text of 56 characters loses its last one to the
terminator. -/
def HKey.create : Option HKey :=
  let reqSize := (hkeyText tableId partIdx suffix).length
  if 0 < reqSize ∧ reqSize ≤ 56
  then some ⟨(hkeyText tableId partIdx suffix).take 55 ++ ['\x00'], reqSize - 1⟩
  else none

def HKey.view (key : HKey) : List Char := key.cStr.take key.size

def hashName (tableId partIdx : BitVec 64) (suffix : Char) : Option (List Char) :=
  (HKey.create tableId.toInt partIdx.toInt suffix).map HKey.view

theorem renderLong_digit {n : Int} {c : Char} (member : c ∈ renderLong n) :
    c = '-' ∨ c.isDigit = true := by
  rw [renderLong] at member
  split at member
  · rcases mem_cons.mp member with minus | digit
    · exact .inl minus
    · exact .inr (Nat.isDigit_of_mem_toDigits (by decide) (by decide) digit)
  · exact .inr (Nat.isDigit_of_mem_toDigits (by decide) (by decide) member)

theorem slash_notMem_renderLong (n : Int) : '/' ∉ renderLong n := by
  intro member
  rcases renderLong_digit member with minus | digit
  · exact absurd minus (by decide)
  · exact absurd digit (by decide)

theorem minus_notMem_toDigits (n : Nat) : '-' ∉ Nat.toDigits 10 n := by
  intro member
  exact absurd (Nat.isDigit_of_mem_toDigits (by decide) (by decide) member) (by decide)

theorem toDigits_injective {m n : Nat} (same : Nat.toDigits 10 m = Nat.toDigits 10 n) : m = n := by
  rw [← Nat.ofDigitChars_toDigits (by decide : 1 < 10) (by decide) (n := m), same,
    Nat.ofDigitChars_toDigits (by decide : 1 < 10) (by decide)]

theorem renderLong_injective {m n : Int} (same : renderLong m = renderLong n) : m = n := by
  simp only [renderLong] at same
  split_ifs at same with negM negN negN
  · have digits := toDigits_injective (List.cons.inj same).2
    omega
  · exact absurd (same ▸ mem_cons_self) (minus_notMem_toDigits n.natAbs)
  · exact absurd (same ▸ mem_cons_self) (minus_notMem_toDigits m.natAbs)
  · have digits := toDigits_injective same
    omega

theorem renderLong_length (x : BitVec 64) : (renderLong x.toInt).length ≤ 20 := by
  have lower := BitVec.le_toInt x
  have upper := BitVec.toInt_lt (x := x)
  have digits : (Nat.toDigits 10 x.toInt.natAbs).length ≤ 19 := by
    apply Nat.toDigits_length
    · decide
    · omega
  rw [renderLong]
  split
  · rw [length_cons]
    omega
  · omega

def nameText : List Char :=
  nameHead ++ (renderLong tableId ++ '/' :: (renderLong partIdx ++ ['\x7d']))

theorem hkeyText_eq :
    hkeyText tableId partIdx suffix = nameText tableId partIdx ++ [suffix] := by
  simp [hkeyText, nameText]

/-- The size of the view leaves out the letter, since `snprintf` does not count the terminator. -/
theorem hashName_eq (tableId partIdx : BitVec 64) (suffix : Char) :
    hashName tableId partIdx suffix = some (nameText tableId.toInt partIdx.toInt) := by
  have short : (nameText tableId.toInt partIdx.toInt).length ≤ 55 := by
    have table := renderLong_length tableId
    have part := renderLong_length partIdx
    simp only [nameText, length_append, length_cons, length_nil]
    have head : nameHead.length = 13 := rfl
    omega
  have size : (hkeyText tableId.toInt partIdx.toInt suffix).length =
      (nameText tableId.toInt partIdx.toInt).length + 1 := by
    rw [hkeyText_eq, length_append]
    rfl
  have buffer : (nameText tableId.toInt partIdx.toInt).length ≤
      ((hkeyText tableId.toInt partIdx.toInt suffix).take 55).length := by
    rw [length_take]
    omega
  rw [hashName, HKey.create, if_pos ⟨by omega, by omega⟩, Option.map_some, HKey.view, size,
    Nat.add_sub_cancel]
  rw [take_append_of_le_length buffer, take_take, min_eq_left short, hkeyText_eq,
    take_append_of_le_length (le_refl _), take_length]

theorem nameText_injective {tableId partIdx otherTable otherPart : Int}
    (same : nameText tableId partIdx = nameText otherTable otherPart) :
      tableId = otherTable ∧ partIdx = otherPart := by
  have tail := append_cancel_left same
  have table : renderLong tableId = renderLong otherTable ∧
      renderLong partIdx ++ ['\x7d'] = renderLong otherPart ++ ['\x7d'] := by
    have outside : '/' ∉ renderLong partIdx ++ ['\x7d'] := by
      simp only [mem_append, mem_singleton, not_or]
      exact ⟨slash_notMem_renderLong partIdx, by decide⟩
    have parts := (append_cons_inj_of_notMem (slash_notMem_renderLong tableId) outside).mp tail
    exact ⟨parts.1, parts.2.2⟩
  exact ⟨renderLong_injective table.1, renderLong_injective (append_cancel_right table.2)⟩

/-! ### Keys of the string mode -/

def stringKeySize (namespaceId : Int) (keySize : Nat) : Nat :=
  (if 0 ≤ namespaceId then 8 else 0) + keySize

variable {keySize : Nat}

/-- `write_string_key`: a view of the key itself, or of a slot of the buffer. -/
def writeStringKey (buffer : Nat → UInt8) (slot : Nat) (namespaceId : BitVec 64)
    (key : BitVec (8 * keySize)) :
    List UInt8 :=
  let entrySize := stringKeySize namespaceId.toInt keySize
  if namespaceId.toInt < 0 then readRange (littleEndian key.toNat) 0 keySize
  else
    let target := slot * entrySize
    let named := blit buffer target 8 (littleEndian namespaceId.toNat)
    readRange (blit named (target + 8) keySize (littleEndian key.toNat)) target entrySize

theorem writeStringKey_eq (buffer : Nat → UInt8) (slot : Nat) {namespaceId : BitVec 64}
    (used : 0 ≤ namespaceId.toInt)
    (key : BitVec (8 * keySize)) :
    writeStringKey buffer slot namespaceId key =
      readRange (fun i => if i < 8 then littleEndian namespaceId.toNat i else littleEndian key.toNat
        (i - 8)) 0 (8 + keySize) := by
  have size : stringKeySize namespaceId.toInt keySize =
      8 + keySize := by rw [stringKeySize, if_pos used]
  simp only [writeStringKey, size]
  rw [if_neg (not_lt.mpr used)]
  apply readRange_congr
  intro offset inside
  by_cases name : offset < 8
  · rw [blit_outside _ _ _ _ _ (.inl (by omega)), blit_inside _ _ _ _ _ (by omega) (by omega),
      Nat.add_sub_cancel_left,
      Nat.zero_add, if_pos name]
  · rw [blit_inside _ _ _ _ _ (by omega) (by omega), Nat.zero_add, if_neg name]
    congr 1
    omega

theorem writeStringKey_injective {first second : Nat → UInt8} {slot other : Nat}
    {name otherName : BitVec 64}
    (used : 0 ≤ name.toInt) (otherUsed : 0 ≤ otherName.toInt) {key otherKey : BitVec (8 * keySize)}
    (same : writeStringKey first slot name key = writeStringKey second other otherName otherKey) :
    name = otherName ∧ key = otherKey := by
  rw [writeStringKey_eq first slot used, writeStringKey_eq second other otherUsed] at same
  have bytes := (readRange_eq_iff _ _ _ _ _).mp same
  constructor
  · have names : ∀ i < 8, littleEndian name.toNat i = littleEndian otherName.toNat i := by
      intro i inside
      simpa [inside] using bytes i (by omega)
    exact eq_of_bytes names
  · apply eq_of_bytes
    intro i inside
    simpa using bytes (8 + i) (by omega)

/-! ### Injectivity -/

/-- Hash names tell tables and partitions apart but not what the hash holds; keys of the string mode
tell namespaces and keys apart. -/
theorem redis_names_injective_iff (tableId partIdx otherTable otherPart : BitVec 64)
    (suffix other : Char) :
    ((hashName tableId partIdx suffix = hashName otherTable otherPart other →
        tableId = otherTable ∧ partIdx = otherPart ∧ suffix = other) ↔
      (tableId = otherTable → partIdx = otherPart → suffix = other)) ∧
    ∀ (keySize : Nat) (first second : Nat → UInt8) (slot otherSlot : Nat)
      (name otherName : BitVec 64)
      (key otherKey : BitVec (8 * keySize)), 0 ≤ name.toInt → 0 ≤ otherName.toInt →
      writeStringKey first slot name key = writeStringKey second otherSlot otherName otherKey →
        name = otherName ∧ key = otherKey := by
  constructor
  · rw [hashName_eq, hashName_eq]
    constructor
    · rintro injective rfl rfl
      exact (injective rfl).2.2
    · intro apart same
      obtain ⟨table, part⟩ := nameText_injective (Option.some.inj same)
      have sameTable := BitVec.eq_of_toInt_eq table
      have samePart := BitVec.eq_of_toInt_eq part
      exact ⟨sameTable, samePart, apart sameTable samePart⟩
  · intro keySize first second slot otherSlot name otherName key otherKey used otherUsed same
    exact writeStringKey_injective used otherUsed same

/-- The hash of the values and that of the metadata have one name. -/
theorem value_and_meta_names_coincide : hashName 3 5 'v' = hashName 3 5 'm' := by
  rw [hashName_eq, hashName_eq]

end EmbedCache.RedisClusterTable
