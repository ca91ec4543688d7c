import Mathlib.Data.List.Basic
import Mathlib.Data.List.Nodup
import Mathlib.Logic.Function.Basic
import Mathlib.Tactic

/-! Linear memory as a function from addresses, with block writes and point writes.

Several writers may touch one address. The rules below read a whole batch of
writes through a target that every writer agrees with, so neither the order of
the batch nor an overlap between consistent writers matters. -/

namespace EmbedCache.Lib

open List Function

theorem rows_apart {size stride i j : Nat} (spaced : size ≤ stride) (different : i ≠ j) :
    i * stride + size ≤ j * stride ∨ j * stride + size ≤ i * stride := by
  have before {i j : Nat} (less : i < j) : i * stride + size ≤ j * stride := by
    calc i * stride + size ≤ (i + 1) * stride := by rw [Nat.succ_mul]; omega
      _ ≤ j * stride := Nat.mul_le_mul_right _ less
  exact (Nat.lt_or_gt_of_ne different).imp before before

variable {β : Type*}

/-- `size` cells from `address` on are replaced by the first `size` cells of `source`. -/
def blit (memory : Nat → β) (address size : Nat) (source : Nat → β) : Nat → β :=
  fun a => if address ≤ a ∧ a < address + size then source (a - address) else memory a

variable (memory source : Nat → β)

theorem blit_inside (address size a : Nat) (lower : address ≤ a) (upper : a < address + size) :
    blit memory address size source a = source (a - address) := by
  simp only [blit, if_pos (And.intro lower upper)]

theorem blit_outside (address size a : Nat) (outside : a < address ∨ address + size ≤ a) :
    blit memory address size source a = memory a := by
  have absent : ¬ (address ≤ a ∧ a < address + size) := by omega
  simp only [blit, if_neg absent]

/-- The cells `[address, address + size)` as a list. -/
def readRange (memory : Nat → β) (address size : Nat) : List β :=
  (List.range size).map fun offset => memory (address + offset)

variable (memory : Nat → β)

theorem readRange_length (address size : Nat) :
    (readRange memory address size).length = size := by
  simp [readRange]

theorem readRange_congr (first second : Nat → β) (address other size : Nat)
    (agree : ∀ offset, offset < size → first (address + offset) = second (other + offset)) :
    readRange first address size = readRange second other size := by
  apply map_congr_left
  intro offset member
  exact agree offset (mem_range.mp member)

theorem readRange_eq_iff (first second : Nat → β) (address other size : Nat) :
    readRange first address size = readRange second other size ↔
      ∀ offset, offset < size → first (address + offset) = second (other + offset) := by
  constructor
  · intro same offset bound
    have entry := map_inj_left.mp same offset (mem_range.mpr bound)
    exact entry
  · exact readRange_congr first second address other size

theorem readRange_blit_same (address size : Nat) :
    readRange (blit memory address size source) address size = readRange source 0 size := by
  apply readRange_congr
  intro offset bound
  rw [blit_inside memory source address size (address + offset) (by omega) (by omega)]
  congr 1
  omega

theorem readRange_getD (data : List β) (default : β) :
    readRange (fun i => data.getD i default) 0 data.length = data := by
  apply ext_getElem
  · exact readRange_length _ _ _
  · intro i _ bound
    simp [readRange, bound]

theorem readRange_blit_disjoint (address size other width : Nat)
    (disjoint : other + width ≤ address ∨ address + size ≤ other) :
    readRange (blit memory address size source) other width = readRange memory other width := by
  apply readRange_congr
  intro offset bound
  exact blit_outside memory source address size (other + offset) (by omega)

structure Write (β : Type*) where
  address : Nat
  size : Nat
  source : Nat → β

def Write.Covers (write : Write β) (a : Nat) : Prop :=
  write.address ≤ a ∧ a < write.address + write.size

instance (write : Write β) (a : Nat) : Decidable (write.Covers a) :=
  inferInstanceAs (Decidable (_ ∧ _))

def applyWrites (memory : Nat → β) (writes : List (Write β)) : Nat → β :=
  writes.foldl (fun memory write => blit memory write.address write.size write.source) memory

@[simp] theorem applyWrites_nil : applyWrites memory [] = memory := rfl

@[simp] theorem applyWrites_cons (write : Write β) (rest : List (Write β)) :
    applyWrites memory (write :: rest) =
      applyWrites (blit memory write.address write.size write.source) rest := rfl

theorem applyWrites_append (first second : List (Write β)) :
    applyWrites memory (first ++ second) = applyWrites (applyWrites memory first) second := by
  simp only [applyWrites, foldl_append]

theorem applyWrites_untouched (writes : List (Write β)) (a : Nat)
    (untouched : ∀ write ∈ writes, ¬ write.Covers a) :
    applyWrites memory writes a = memory a := by
  induction writes generalizing memory with
  | nil => rfl
  | cons write rest ih =>
    rw [applyWrites_cons, ih _ (fun other member => untouched other (mem_cons_of_mem _ member))]
    have first := untouched write mem_cons_self
    apply blit_outside
    simp only [Write.Covers, not_and, not_lt] at first
    omega

/-- Writers that agree with one target on what they cover leave that target behind,
in any order and with any overlap. -/
theorem applyWrites_target (memory target : Nat → β) (writes : List (Write β)) (a : Nat)
    (agrees : ∀ write ∈ writes, write.Covers a → write.source (a - write.address) = target a)
    (covered : ∃ write ∈ writes, write.Covers a) : applyWrites memory writes a = target a := by
  induction writes generalizing memory with
  | nil => simp at covered
  | cons write rest ih =>
    rw [applyWrites_cons]
    by_cases later : ∃ other ∈ rest, other.Covers a
    · exact ih _ (fun other member => agrees other (mem_cons_of_mem _ member)) later
    · have here : write.Covers a := by
        obtain ⟨other, member, covers⟩ := covered
        rcases mem_cons.mp member with same | tail
        · exact same ▸ covers
        · exact absurd ⟨other, tail, covers⟩ later
      rw [applyWrites_untouched _ rest a (fun other member covers => later ⟨other, member, covers⟩),
        blit_inside _ _ _ _ _ here.1 here.2]
      exact agrees write mem_cons_self here

def rowAt (memory : Nat → β) (width slot : Nat) : List β := readRange memory (slot * width) width

def rowWrites (width : Nat) (rows : List (Nat × (Nat → β))) : List (Write β) :=
  rows.map fun row => ⟨row.1 * width, width, row.2⟩

theorem row_covers_iff (width slot other offset : Nat) (source : Nat → β) (bound : offset < width) :
    (Write.mk (other * width) width source).Covers (slot * width + offset) ↔ other = slot := by
  simp only [Write.Covers]
  constructor
  · rintro ⟨lower, upper⟩
    have quotient : (slot * width + offset) / width = slot := by
      rw [Nat.mul_comm, Nat.mul_add_div (by omega), Nat.div_eq_of_lt bound, Nat.add_zero]
    rw [← quotient]
    exact (Nat.div_eq_of_lt_le lower (by rw [Nat.succ_mul]; exact upper)).symm
  · rintro rfl
    omega

theorem rowAt_absent (width slot : Nat) (rows : List (Nat × (Nat → β)))
    (absent : ∀ row ∈ rows, row.1 ≠ slot) :
    rowAt (applyWrites memory (rowWrites width rows)) width slot = rowAt memory width slot := by
  apply readRange_congr
  intro offset bound
  apply applyWrites_untouched
  intro write member covers
  obtain ⟨row, present, rfl⟩ := mem_map.mp member
  exact absent row present ((row_covers_iff width slot row.1 offset row.2 bound).mp covers)

theorem rowAt_present (width : Nat) (rows : List (Nat × (Nat → β))) (row : Nat × (Nat → β))
    (present : row ∈ rows)
    (agrees : ∀ other ∈ rows, other.1 = row.1 →
      readRange other.2 0 width = readRange row.2 0 width) :
    rowAt (applyWrites memory (rowWrites width rows)) width row.1 = readRange row.2 0 width := by
  apply readRange_congr
  intro offset bound
  have target :=
    applyWrites_target memory (fun a => row.2 (a - row.1 * width)) (rowWrites width rows)
    (row.1 * width + offset)
  simp only [Nat.add_sub_cancel_left] at target
  rw [Nat.zero_add]
  apply target
  · intro write member covers
    obtain ⟨other, inside, rfl⟩ := mem_map.mp member
    have same := (row_covers_iff width row.1 other.1 offset other.2 bound).mp covers
    have cell :=
      (readRange_eq_iff other.2 row.2 0 0 width).mp (agrees other inside same) offset bound
    simp only [same, Nat.add_sub_cancel_left]
    simpa only [Nat.zero_add] using cell
  · exact ⟨_, mem_map.mpr ⟨row, present, rfl⟩,
      (row_covers_iff width row.1 row.1 offset row.2 bound).mpr rfl⟩

variable {ι α : Type*} [DecidableEq ι]

def setMany (f : ι → α) (points : List (ι × α)) : ι → α :=
  points.foldl (fun f point => Function.update f point.1 point.2) f

variable (f : ι → α)

@[simp] theorem setMany_nil : setMany f [] = f := rfl

@[simp] theorem setMany_cons (point : ι × α) (rest : List (ι × α)) :
    setMany f (point :: rest) = setMany (update f point.1 point.2) rest := rfl

theorem setMany_append (first second : List (ι × α)) :
    setMany f (first ++ second) = setMany (setMany f first) second := by
  simp only [setMany, foldl_append]

theorem setMany_absent (points : List (ι × α)) (i : ι) (absent : ∀ point ∈ points, point.1 ≠ i) :
    setMany f points i = f i := by
  induction points generalizing f with
  | nil => rfl
  | cons point rest ih =>
    rw [setMany_cons, ih _ (fun other member => absent other (mem_cons_of_mem _ member))]
    exact update_of_ne (absent point mem_cons_self).symm _ _

theorem setMany_cases (points : List (ι × α)) (i : ι) :
    setMany f points i = f i ∨ ∃ point ∈ points, point.1 = i ∧ setMany f points i = point.2 := by
  induction points generalizing f with
  | nil => exact .inl rfl
  | cons point rest ih =>
    rw [setMany_cons]
    rcases ih (update f point.1 point.2) with kept | ⟨other, member, same, value⟩
    · by_cases here : i = point.1
      · subst here
        rw [update_self] at kept
        exact .inr ⟨point, mem_cons_self, rfl, kept⟩
      · rw [update_of_ne here] at kept
        exact .inl kept
    · exact .inr ⟨other, mem_cons_of_mem _ member, same, value⟩

theorem setMany_congr (f g : ι → α) (points : List (ι × α))
    (agree : ∀ i, (∀ point ∈ points, point.1 ≠ i) → f i = g i) :
      setMany f points = setMany g points := by
  induction points generalizing f g with
  | nil => exact funext fun i => agree i (by simp)
  | cons point rest ih =>
    rw [setMany_cons, setMany_cons]
    apply ih
    intro i absent
    by_cases here : i = point.1
    · rw [here, update_self, update_self]
    · rw [update_of_ne here, update_of_ne here]
      apply agree
      intro other member
      rcases mem_cons.mp member with rfl | tail
      · exact Ne.symm here
      · exact absent other tail

theorem setMany_target (f target : ι → α) (points : List (ι × α)) (i : ι)
    (agrees : ∀ point ∈ points, point.1 = i → point.2 = target i)
    (present : ∃ point ∈ points, point.1 = i) : setMany f points i = target i := by
  induction points generalizing f with
  | nil => simp at present
  | cons point rest ih =>
    rw [setMany_cons]
    by_cases later : ∃ other ∈ rest, other.1 = i
    · exact ih _ (fun other member => agrees other (mem_cons_of_mem _ member)) later
    · have here : point.1 = i := by
        obtain ⟨other, member, same⟩ := present
        rcases mem_cons.mp member with equal | tail
        · exact equal ▸ same
        · exact absurd ⟨other, tail, same⟩ later
      rw [setMany_absent _ rest i (fun other member same => later ⟨other, member, same⟩)]
      subst here
      rw [update_self]
      exact agrees point mem_cons_self rfl

end EmbedCache.Lib
