import EmbedCache.HierarchicalLayer

/-! What the tables of a stack contain, one after the other.

A table acts on the hit mask and the rows through its contents alone, however it is
partitioned, and two tables in a row act as the contents of the first with those of the
second where the first has none. Tables over unified memory are apart: they write every row
and leave the mask alone. -/

namespace EmbedCache

open List Option

variable {w : Nat} {shape : RowShape}

/-! ### Rows -/

theorem writeRows_writeRows (first second : Nat → Option (Nat → UInt8)) (values : Nat → UInt8) :
    writeRows shape second (writeRows shape first values) =
      writeRows shape (fun i => (second i).or (first i)) values := by
  funext a
  simp only [writeRows]
  cases second (a / shape.stride) with
  | none => rfl
  | some row =>
    simp only [some_or]
    by_cases inside : a % shape.stride < shape.width
    · rw [if_pos inside, if_pos inside]
    · rw [if_neg inside, if_neg inside]
      cases first (a / shape.stride) with
      | none => rfl
      | some other => exact if_neg inside

theorem writeRows_none (values : Nat → UInt8) : writeRows shape (fun _ => none) values = values :=
  rfl

theorem writeRows_row (chosen : Nat → Option (Nat → UInt8)) (values : Nat → UInt8)
    (i : Nat) {o : Nat}
    (inside : o < shape.width) : writeRows shape chosen values (i * shape.stride + o) =
      ((chosen i).map fun row => row o).getD (values (i * shape.stride + o)) := by
  have bound : o < shape.stride := Nat.lt_of_lt_of_le inside shape.fits
  have row : (i * shape.stride + o) / shape.stride = i := by
    rw [Nat.mul_comm, Nat.mul_add_div (by omega), Nat.div_eq_of_lt bound, Nat.add_zero]
  have offset : (i * shape.stride + o) % shape.stride = o := by
    rw [Nat.mul_comm, Nat.mul_add_mod, Nat.mod_eq_of_lt bound]
  simp only [writeRows, row, offset, if_pos inside]
  cases chosen i <;> rfl

theorem blit_row (row : Nat → UInt8) (values : Nat → UInt8) (i : Nat) :
    Lib.blit values (i * shape.stride) shape.width row =
      writeRows shape (fun j => if j = i then some row else none) values := by
  have positive : 0 < shape.stride := Nat.lt_of_lt_of_le shape.positive shape.fits
  funext a
  have parts := Nat.div_add_mod a shape.stride
  have bound := Nat.mod_lt a positive
  simp only [Lib.blit, writeRows]
  by_cases here : a / shape.stride = i
  · rw [here, Nat.mul_comm] at parts
    have offset : a - i * shape.stride = a % shape.stride := by omega
    have fits := shape.fits
    simp only [here, if_true, offset]
    congr 1
    exact propext ⟨fun inside => by omega, fun inside => ⟨by omega, by omega⟩⟩
  · have outside : ¬ (i * shape.stride ≤ a ∧ a < i * shape.stride + shape.width) := by
      rintro ⟨lower, upper⟩
      have fits := shape.fits
      exact here (Nat.div_eq_of_lt_le lower (by rw [Nat.succ_mul]; omega))
    simp only [here, if_false, if_neg outside]

theorem foldl_blit_rows (source : Nat → UInt8) (mask : Nat → Bool) (values : Nat → UInt8)
    (count : Nat) :
    (range count).foldl (fun memory i =>
        if mask i then memory
        else Lib.blit memory (i * shape.stride) shape.width fun o =>
          source (i * shape.stride + o)) values =
      writeRows shape (fun i => if i < count ∧ mask i = false then some fun o =>
        source (i * shape.stride + o) else none)
        values := by
  induction count with
  | zero => simp [writeRows_none]
  | succ count ih =>
    rw [range_succ, foldl_append, ih, foldl_cons, foldl_nil]
    cases bit : mask count with
    | true =>
      rw [if_pos rfl]
      congr 1
      funext i
      by_cases last : i = count
      · simp [last, bit]
      · congr 1
        exact propext ⟨fun inside => ⟨by omega, inside.2⟩, fun inside => ⟨by omega, inside.2⟩⟩
    | false =>
      rw [if_neg (by simp), blit_row, writeRows_writeRows]
      congr 1
      funext i
      by_cases last : i = count
      · simp [last, bit]
      · have same : i < count ↔ i < count + 1 := by omega
        simp [last, same]

/-! ### Contents -/

section Contents

variable (first second content : BitVec w → Option (Nat → UInt8)) (keys : List (BitVec w))
  (mask : Nat → Bool)

def orContents (key : BitVec w) : Option (Nat → UInt8) := (first key).or (second key)

def openKeys : Nat := (List.range keys.length).countP fun i => !mask i

theorem chosenRow_beyond {i : Nat} (beyond : keys.length ≤ i) :
    chosenRow content keys mask i = none := by
  simp [chosenRow, getElem?_eq_none beyond]

theorem chosenRow_congr {other : Nat → Bool} (same : ∀ i < keys.length, mask i = other i) :
    chosenRow content keys mask = chosenRow content keys other := by
  funext i
  by_cases inside : i < keys.length
  · rw [chosenRow, chosenRow, same i inside]
  · rw [chosenRow_beyond content keys mask (by omega),
      chosenRow_beyond content keys other (by omega)]

theorem chosenRow_or (i : Nat) :
    (chosenRow second keys (maskAfter first keys mask) i).or (chosenRow first keys mask i) =
      chosenRow (orContents first second) keys mask i := by
  by_cases hit : mask i = true
  · simp [chosenRow, maskAfter, hit]
  · cases present : keys[i]? with
    | none => simp [chosenRow, present]
    | some key =>
      simp only [chosenRow, maskAfter, hit, present, bind_some, orContents]
      cases first key <;> simp

theorem maskAfter_or (i : Nat) :
    maskAfter second keys (maskAfter first keys mask) i =
      maskAfter (orContents first second) keys mask i := by
  have rows := congrArg isSome (chosenRow_or first second keys mask i)
  simp only [isSome_or] at rows
  rw [maskAfter, maskAfter, maskAfter, ← rows, Bool.or_assoc,
    Bool.or_comm (chosenRow first keys mask i).isSome]

theorem maskAfter_congr {other : Nat → Bool} {i : Nat} (same : mask i = other i) :
    maskAfter content keys mask i = maskAfter content keys other i := by
  simp only [maskAfter, chosenRow, same]

theorem maskAfter_empty {i : Nat} (inside : i < keys.length) :
    maskAfter content keys (fun _ => false) i = (content keys[i]).isSome := by
  simp [maskAfter, chosenRow, getElem?_eq_getElem inside]

theorem newHits_add_newMisses : newHits content keys mask + newMisses content keys mask =
    openKeys keys mask := by
  simp only [newHits, newMisses, openKeys]
  induction range keys.length with
  | nil => rfl
  | cons i rest ih =>
    simp only [countP_cons]
    have one : (chosenRow content keys mask i).isSome → mask i = false := by
      simp only [chosenRow]
      cases mask i <;> simp
    cases taken : (chosenRow content keys mask i).isSome with
    | true =>
      rw [one taken, isNone_eq_false_iff.mpr taken]
      simp
      omega
    | false =>
      rw [isNone_iff_eq_none.mpr (not_isSome_iff_eq_none.mp (by simp [taken]))]
      cases mask i <;> simp <;> omega

theorem newMisses_eq : newMisses content keys mask =
    openKeys keys (maskAfter content keys mask) := by
  simp only [newMisses, openKeys]
  congr 1
  funext i
  rw [maskAfter, Bool.not_or, not_isSome]

theorem newHits_or : newHits (orContents first second) keys mask =
    newHits first keys mask + newHits second keys (maskAfter first keys mask) := by
  have both := newHits_add_newMisses (orContents first second) keys mask
  have early := newHits_add_newMisses first keys mask
  have late := newHits_add_newMisses second keys (maskAfter first keys mask)
  have after : maskAfter second keys (maskAfter first keys mask) =
      maskAfter (orContents first second) keys mask :=
    funext fun i => maskAfter_or first second keys mask i
  rw [newMisses_eq] at both early late
  rw [after] at late
  omega

end Contents

/-! ### Partitions -/

section Parts

variable (content : BitVec w → Option (Nat → UInt8)) (keys : List (BitVec w)) {numParts : Nat}
  (partitioner : BitVec w → Fin numParts)

def within (parts : List (Fin numParts)) (key : BitVec w) : Option (Nat → UInt8) :=
  if partitioner key ∈ parts then content key else none

theorem within_cons (part : Fin numParts) (parts : List (Fin numParts)) :
    within content partitioner (part :: parts) =
      orContents (fun key => if partitioner key = part then content key else none)
        (within content partitioner parts) := by
  funext key
  simp only [within, orContents, mem_cons]
  by_cases here : partitioner key = part
  · simp only [here, true_or, if_true]
    cases content key <;> simp
  · simp [here]

theorem within_all : within content partitioner (finRange numParts) = content := by
  funext key
  simp [within]

/-- The scans of the partitions together, in whatever order. -/
theorem foldl_findPart (parts : List (Fin numParts)) (found : FindResult) :
    parts.foldl (findPart content keys shape partitioner) found =
      { mask := maskAfter (within content partitioner parts) keys found.mask
        values :=
          writeRows shape (chosenRow (within content partitioner parts) keys found.mask)
            found.values
        counter :=
          found.counter + newHits (within content partitioner parts) keys found.mask } := by
  induction parts generalizing found with
  | nil =>
    have nothing : chosenRow (within content partitioner []) keys found.mask = fun _ => none := by
      funext i
      cases present : keys[i]? <;> simp [chosenRow, present, within]
    have mask : maskAfter (within content partitioner []) keys found.mask = found.mask := by
      funext i
      simp [maskAfter, nothing]
    simp [nothing, mask, writeRows_none, newHits]
  | cons part parts ih =>
    rw [foldl_cons, ih, within_cons]
    simp only [findPart, writeRows_writeRows, FindResult.mk.injEq]
    refine ⟨funext fun i => maskAfter_or _ _ keys found.mask i, ?_, ?_⟩
    · congr 1
      funext i
      exact chosenRow_or _ _ keys found.mask i
    · rw [newHits_or, Nat.add_assoc]

end Parts

/-! ### Tables -/

def TableKind.isUvm : TableKind w → Bool
  | .gpuUvm _ _ => true
  | .gpuCache _ | .hostMap _ _ | .hostLinear => false

namespace LayerTable

variable (table : LayerTable w shape) (keys : List (BitVec w)) (mask : Nat → Bool)
  (values : Nat → UInt8)

/-- What the table enters into the hit mask. -/
def marks : BitVec w → Option (Nat → UInt8) :=
  if table.kind.isUvm then fun _ => none else table.content

/-- The row that the table writes for a key with this bit in the mask. -/
def writes (bit : Bool) (key : BitVec w) : Option (Nat → UInt8) :=
  if bit && !table.kind.isUvm then none else table.content key

theorem marks_of_masked (masked : table.kind.isUvm = false) : table.marks = table.content := by
  simp [marks, masked]

theorem chosenRow_writes (masked : table.kind.isUvm = false) :
    chosenRow table.content keys mask = fun i => keys[i]?.bind (table.writes (mask i)) := by
  funext i
  rw [chosenRow]
  cases mask i <;> cases keys[i]? <;> simp [writes, masked]

theorem find_values : (table.find keys mask values).values =
    writeRows shape (fun i => keys[i]?.bind (table.writes (mask i))) values := by
  unfold find
  split
  case h_1 cache => rw [chosenRow_writes table keys mask (by simp [cache, TableKind.isUvm])]
  case h_2 countMisses cached uvm =>
    have all : chosenRow table.content keys (fun _ => false) =
        fun i => keys[i]?.bind (table.writes (mask i)) := by
      funext i
      rw [chosenRow]
      cases keys[i]? <;> simp [writes, uvm, TableKind.isUvm]
    rw [all]
  case h_3 map =>
    rw [foldl_findPart, within_all,
      chosenRow_writes table keys mask (by simp [map, TableKind.isUvm])]
  case h_4 linear => rw [chosenRow_writes table keys mask (by simp [linear, TableKind.isUvm])]

theorem find_mask {i : Nat} (inside : i < keys.length) :
    (table.find keys mask values).mask i = maskAfter table.marks keys mask i := by
  unfold find
  split
  case h_1 cache => rw [marks_of_masked table (by simp [cache, TableKind.isUvm])]
  case h_2 countMisses cached uvm =>
    simp [maskAfter, chosenRow, marks, uvm, TableKind.isUvm, getElem?_eq_getElem inside]
  case h_3 map =>
    rw [foldl_findPart, within_all, marks_of_masked table (by simp [map, TableKind.isUvm])]
  case h_4 linear =>
    have present : (table.content keys[i]).isSome :=
      table.total (by simp [linear, TableKind.isLinear]) keys[i]
    have words : i < (keys.length + 63) / 64 * 64 := by omega
    rw [marks_of_masked table (by simp [linear, TableKind.isUvm])]
    simp only [words, if_true, inside, decide_true, maskAfter, chosenRow,
      getElem?_eq_getElem inside,
      bind_some]
    cases mask i <;> simp [present]

def counts : Nat :=
  match table.kind with
  | .gpuCache true => newMisses table.content keys mask
  | .gpuUvm true cached => keys.countP fun key => !cached key
  | .gpuCache false | .gpuUvm false _ => 0
  | .hostMap _ _ => newHits table.content keys mask
  | .hostLinear => keys.length

theorem find_counter : (table.find keys mask values).counter = table.counts keys mask := by
  unfold counts
  unfold find
  split
  case h_1 countMisses gpu =>
    rw [gpu]
    cases countMisses <;> rfl
  case h_2 countMisses cached uvm =>
    rw [uvm]
    cases countMisses <;> rfl
  case h_3 numParts partitioner map => rw [map, foldl_findPart, within_all, Nat.zero_add]
  case h_4 linear => rw [linear]

theorem counts_congr {other : Nat → Bool} (same : ∀ i < keys.length, mask i = other i) :
    table.counts keys mask = table.counts keys other := by
  have rows := chosenRow_congr table.content keys mask same
  have misses : newMisses table.content keys mask = newMisses table.content keys other := by
    refine countP_congr fun i member => ?_
    rw [rows, same i (mem_range.mp member)]
  simp only [counts, misses, newHits, rows]

end LayerTable

/-! ### Stacks -/

variable (tables : List (LayerTable w shape))

def firstRow (key : BitVec w) : Option (Nat → UInt8) :=
  tables.findSome? fun table => table.content key

theorem firstRow_nil : firstRow ([] : List (LayerTable w shape)) = fun _ => none := rfl

theorem firstRow_cons (table : LayerTable w shape) (tables : List (LayerTable w shape)) :
    firstRow (table :: tables) = orContents table.content (firstRow tables) := by
  funext key
  simp only [firstRow, orContents, findSome?_cons]
  cases table.content key <;> rfl

theorem firstRow_append (early late : List (LayerTable w shape)) :
    firstRow (early ++ late) = orContents (firstRow early) (firstRow late) := by
  funext key
  simp only [firstRow, orContents, findSome?_append]

/-- The tables that keep to the hit mask. -/
def maskTables : List (LayerTable w shape) := tables.filter fun table => !table.kind.isUvm

theorem maskTables_eq_self (masked : ∀ table ∈ tables, table.kind.isUvm = false) :
    maskTables tables = tables :=
  filter_eq_self.mpr fun table member => by simp [masked table member]

theorem firstRow_maskTables_cons (table : LayerTable w shape) (tables : List (LayerTable w shape)) :
    firstRow (maskTables (table :: tables)) =
      orContents table.marks (firstRow (maskTables tables)) := by
  cases uvm : table.kind.isUvm with
  | true =>
    funext key
    simp [maskTables, uvm, LayerTable.marks, orContents]
  | false =>
    rw [maskTables, filter_cons, if_pos (by simp [uvm]), firstRow_cons, table.marks_of_masked uvm]
    rfl

/-- The row that is written last for a key with this bit in the mask. -/
def written : List (LayerTable w shape) → Bool → BitVec w → Option (Nat → UInt8)
  | [], _, _ => none
  | table :: tables, bit, key =>
    (written tables (bit || (table.marks key).isSome) key).or (table.writes bit key)

theorem written_of_masked (masked : ∀ table ∈ tables, table.kind.isUvm = false) (bit : Bool)
    (key : BitVec w) : written tables bit key = if bit then none else firstRow tables key := by
  induction tables generalizing bit with
  | nil => cases bit <;> rfl
  | cons table tables ih =>
    have here := masked table mem_cons_self
    rw [written, ih fun other member => masked other (mem_cons_of_mem _ member), firstRow_cons,
      orContents, table.marks_of_masked here, LayerTable.writes, here]
    cases bit <;> cases table.content key <;> simp

def stackCounts (keys : List (BitVec w)) : List (LayerTable w shape) → (Nat → Bool) → List Nat
  | [], _ => []
  | table :: tables, mask =>
    table.counts keys mask :: stackCounts keys tables (maskAfter table.marks keys mask)

theorem stackCounts_congr (keys : List (BitVec w)) (tables : List (LayerTable w shape))
    {mask other : Nat → Bool} (same : ∀ i < keys.length, mask i = other i) :
    stackCounts keys tables mask = stackCounts keys tables other := by
  induction tables generalizing mask other with
  | nil => rfl
  | cons table tables ih =>
    have after := ih fun i inside => maskAfter_congr table.marks keys mask (same i inside)
    rw [stackCounts, stackCounts, table.counts_congr keys mask same, after]

theorem stackCounts_append (keys : List (BitVec w)) (early late : List (LayerTable w shape))
    (mask : Nat → Bool) : stackCounts keys (early ++ late) mask =
      stackCounts keys early mask ++
        stackCounts keys late (maskAfter (firstRow (maskTables early)) keys mask) := by
  induction early generalizing mask with
  | nil =>
    have unchanged :
        maskAfter (firstRow (maskTables ([] : List (LayerTable w shape)))) keys mask = mask := by
      funext i
      cases present : keys[i]? <;> simp [maskAfter, chosenRow, firstRow, maskTables, present]
    rw [unchanged]
    rfl
  | cons table early ih =>
    have both : maskAfter (firstRow (maskTables (table :: early))) keys mask =
        maskAfter (firstRow (maskTables early)) keys (maskAfter table.marks keys mask) := by
      rw [firstRow_maskTables_cons]
      exact (funext fun i =>
        maskAfter_or table.marks (firstRow (maskTables early)) keys mask i).symm
    rw [cons_append, stackCounts, stackCounts, ih, both, cons_append]

theorem firstRow_isSome_iff (key : BitVec w) :
    (firstRow tables key).isSome ↔ ∃ table ∈ tables, (table.content key).isSome := by
  simp [firstRow]

end EmbedCache
