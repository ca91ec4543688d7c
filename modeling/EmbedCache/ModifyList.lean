import EmbedCache.Cache

/-! Modify lists and the kernels that consume them (`ec_set_associative.cuh`).

A kernel is the sequence of the writes of its threads. Threads of one launch are
independent, and the lists built by the cache never give two threads different
contents for one address, so the order chosen here is immaterial. -/

namespace EmbedCache

open Lib List

variable {w : Nat}

inductive ECError
  | success
  | invalidArgument
  | memoryAllocation
  | cudaError
  | freeError
  | notImplemented
  | staleModifyContext
  | badAllocator
  | badLogger
  | memoryAllocatedToCacheTooSmall
  | badKeyTagConfig
  deriving DecidableEq, Repr

inductive DataTypeFormat
  | fp16
  | fp32
  | int8Scaled
  deriving DecidableEq, Repr

inductive ModifyOpType
  | replace
  | update
  | updateAccumulate
  | invalidate
  deriving DecidableEq, Repr

/-- `src` is read through its bytes, `dst` is an offset into the row storage. -/
structure ModifyEntry (w : Nat) where
  src : Nat → UInt8
  dst : Nat
  set : Nat
  way : Nat
  tag : BitVec w

/-- `tags + e.set * NUM_WAYS + e.way`, added up in `uint32_t`. -/
def ModifyEntry.slot (base : Nat) (entry : ModifyEntry w) : Nat :=
  base + wrap32 (entry.set * numWays + entry.way)

structure InsertItem (w : Nat) (C : Type*) where
  key : BitVec w
  priority : C
  data : Nat → UInt8

/-- The rows passed to `update` and `update_accumulate`: row `i` starts at `d_values + i *
stride`. -/
structure RowBuffer where
  values : Int → UInt8
  stride : Int

def RowBuffer.row (buffer : RowBuffer) (i : Nat) : Nat → UInt8 :=
  fun offset => buffer.values (i * buffer.stride + offset)

/-- An order that the code leaves open: hash-map iteration, or the order of atomic increments. -/
structure Arrangement (α : Type*) where
  iterate : List α → List α
  perm : ∀ items, (iterate items).Perm items

theorem lawful_keys : LawfulBEq (BitVec w) := inferInstance

theorem id_perm {α : Type*} (items : List α) : (id items).Perm items := .refl _

def inOrder {α : Type*} : Arrangement α := ⟨id, id_perm⟩

/-- The stores of one warp that copies `sz` bytes in elements of `elementSize` bytes:
lane `l` of round `r` moves the element at `(r * subwarpWidth + l) * elementSize`. -/
def memcpyWarp (subwarpWidth elementSize dst : Nat) (src : Nat → UInt8) (sz : Nat) :
    List (Write UInt8) :=
  (List.range (sz / (elementSize * subwarpWidth) + 1)).flatMap fun round =>
    (List.range subwarpWidth).filterMap fun lane =>
      let offset := round * (elementSize * subwarpWidth) + lane * elementSize
      if offset < sz then some ⟨dst + offset, elementSize, fun i => src (offset + i)⟩ else none

theorem mem_memcpyWarp_iff (subwarpWidth elementSize dst : Nat) (src : Nat → UInt8) (sz : Nat)
    (lanes : 0 < subwarpWidth) (element : 0 < elementSize) (write : Write UInt8) :
    write ∈ memcpyWarp subwarpWidth elementSize dst src sz ↔
      ∃ index, index * elementSize < sz ∧
        write = ⟨dst + index * elementSize, elementSize, fun i =>
          src (index * elementSize + i)⟩ := by
  simp only [memcpyWarp, mem_flatMap, mem_range, mem_filterMap]
  constructor
  · rintro ⟨round, _, lane, _, chosen⟩
    split at chosen
    · rename_i bound
      have place : round * (elementSize * subwarpWidth) + lane * elementSize =
          (round * subwarpWidth + lane) * elementSize := by ring
      rw [place] at bound chosen
      exact ⟨round * subwarpWidth + lane, bound, (Option.some.inj chosen).symm⟩
    · exact absurd chosen (by simp)
  · rintro ⟨index, bound, rfl⟩
    have place : index / subwarpWidth * (elementSize * subwarpWidth) + index % subwarpWidth *
        elementSize =
        index * elementSize := by
      calc
        _ = (index / subwarpWidth * subwarpWidth + index % subwarpWidth) * elementSize := by ring
        _ = index * elementSize := by rw [Nat.div_add_mod']
    refine ⟨index / subwarpWidth, ?_, index % subwarpWidth, Nat.mod_lt _ lanes, ?_⟩
    · have chunk : 0 < elementSize * subwarpWidth := Nat.mul_pos element lanes
      have round : index / subwarpWidth ≤ sz / (elementSize * subwarpWidth) := by
        rw [Nat.le_div_iff_mul_le chunk]
        omega
      omega
    · rw [place, if_pos bound]

/-- A warp copies exactly its `sz` bytes when the element size divides them. -/
theorem memcpyWarp_eq_blit (memory : Memory) (subwarpWidth elementSize dst : Nat)
    (src : Nat → UInt8)
    (sz : Nat) (lanes : 0 < subwarpWidth) (element : 0 < elementSize) (divides : elementSize ∣ sz) :
    applyWrites memory (memcpyWarp subwarpWidth elementSize dst src sz) =
      blit memory dst sz src := by
  obtain ⟨count, rfl⟩ := divides
  funext a
  have within : ∀ index, index * elementSize < elementSize * count →
      index * elementSize + elementSize ≤ elementSize * count := by
    intro index bound
    rw [Nat.mul_comm elementSize count] at bound ⊢
    have less : index < count := lt_of_mul_lt_mul_right bound (Nat.zero_le _)
    calc
      index * elementSize + elementSize = (index + 1) * elementSize := by ring
      _ ≤ count * elementSize := Nat.mul_le_mul_right _ less
  by_cases inside : dst ≤ a ∧ a < dst + elementSize * count
  · rw [blit_inside _ _ _ _ _ inside.1 inside.2]
    apply applyWrites_target memory (fun a => src (a - dst))
    · intro write member covers
      obtain ⟨index, _, rfl⟩ := (mem_memcpyWarp_iff _ _ _ _ _ lanes element write).mp member
      simp only [Write.Covers] at covers
      simp only
      congr 1
      omega
    · have start : (a - dst) / elementSize * elementSize ≤ a - dst := Nat.div_mul_le_self _ _
      have stop : a - dst < (a - dst) / elementSize * elementSize + elementSize :=
        Nat.lt_div_mul_add element
      refine ⟨_, (mem_memcpyWarp_iff _ _ _ _ _ lanes element _).mpr
        ⟨(a - dst) / elementSize, by omega, rfl⟩, ?_⟩
      simp only [Write.Covers]
      omega
  · rw [blit_outside _ _ _ _ _ (by omega)]
    apply applyWrites_untouched
    intro write member covers
    obtain ⟨index, bound, rfl⟩ := (mem_memcpyWarp_iff _ _ _ _ _ lanes element write).mp member
    have fits := within index bound
    simp only [Write.Covers] at covers
    omega

def invalidateTagKernel (entries : List (ModifyEntry w)) (base : Nat) (sentinel : BitVec w)
    (tags : Tags w) :
    Tags w :=
  setMany tags (entries.map fun entry => (entry.slot base, sentinel))

def tagUpdateKernel (entries : List (ModifyEntry w)) (base : Nat) (tags : Tags w) : Tags w :=
  setMany tags (entries.map fun entry => (entry.slot base, entry.tag))

/-- `mem_update_kernel`: one warp a list entry. -/
def memUpdateKernel (elementSize : Nat) (entries : List (ModifyEntry w)) (sz : Nat)
    (memory : Memory) : Memory :=
  applyWrites memory (entries.flatMap fun entry => memcpyWarp 32 elementSize entry.dst entry.src sz)

/-- The additions of the kernels on single elements: what `atomicAdd` leaves of an element, and
the element that a scaled byte stands for. The floating-point arithmetic is not interpreted. -/
structure RowArithmetic where
  add : DataTypeFormat → (Nat → UInt8) → (Nat → UInt8) → Nat → UInt8
  scaled : DataTypeFormat → UInt8 → (Nat → UInt8) → Nat → UInt8

/-- Bytes added one by one, for concrete runs. -/
def addBytes : RowArithmetic := ⟨fun _ old src i => old i + src i, fun _ value _ _ => value⟩

def elementBytes : DataTypeFormat → Nat
  | .fp16 => 2
  | .fp32 => 4
  | .int8Scaled => 1

/-- The `sz` bytes from `address` on; nothing behind them is read. -/
def rowBytes (memory : Memory) (address sz : Nat) : Nat → UInt8 :=
  fun i => if i < sz then memory (address + i) else 0

/-- The elements that start below `sz`; lane `n % 32` takes element `n` in round `n / 32`. -/
def warpElements (elementSize sz : Nat) : List Nat :=
  (List.range ((sz / (elementSize * 32) + 1) * 32)).filter fun n => n * elementSize < sz

/-- What a warp of `mem_update_accumulate_kernel` adds: the offset in the row and the element. -/
def addends (format : DataTypeFormat) (src : Nat → UInt8) (sz : Nat) : List (Nat × (Nat → UInt8)) :=
  (warpElements (elementBytes format) sz).map fun n =>
    (n * elementBytes format, rowBytes src (n * elementBytes format) (elementBytes format))

/-- The same for the quantized kernel. Its `sizeof(ELEMENT_SIZE)` is the size of a `uint32_t`, and
a round moves the destination by the bytes loaded, not by the bytes they become. -/
def quantizedAddends (arithmetic : RowArithmetic) (format : DataTypeFormat) (src : Nat → UInt8)
    (sz : Nat) : List (Nat × (Nat → UInt8)) :=
  let load := if format = .fp16 ∧ (sz / 2 + 2) % 4 ≠ 0 then 2 else 4
  let inputSz := sz / 4
  (warpElements load inputSz).flatMap fun n => (List.range load).map fun e =>
    (n / 32 * (load * 32) + n % 32 * (elementBytes format * load) + e * elementBytes format,
      arithmetic.scaled format (src (n * load + e)) (rowBytes src inputSz (elementBytes format)))

/-- Additions to elements of one size at offsets from `dst`, one after another. -/
def addElements (add : (Nat → UInt8) → (Nat → UInt8) → Nat → UInt8) (size dst : Nat)
    (items : List (Nat × (Nat → UInt8))) (memory : Memory) : Memory :=
  items.foldl (fun memory item =>
    blit memory (dst + item.1) size (add (rowBytes memory (dst + item.1) size) item.2)) memory

/-- The additions of one warp. The plain kernel works in the format of the update, whatever that
of the cache, the quantized one in that of the cache. -/
def accumulateEntry (arithmetic : RowArithmetic) (inputFormat outputFormat : DataTypeFormat)
    (sz dst : Nat) (src : Nat → UInt8) : Memory → Memory :=
  match inputFormat with
  | .fp16 | .fp32 => addElements (arithmetic.add inputFormat) (elementBytes inputFormat) dst
      (addends inputFormat src sz)
  | .int8Scaled => addElements (arithmetic.add outputFormat) (elementBytes outputFormat) dst
      (quantizedAddends arithmetic outputFormat src sz)

/-- `mem_update_accumulate_kernel` and its quantized sibling: one warp a list entry. An element
that reaches behind its row is added to after the elements of the entries before it. -/
def memUpdateAccumulateKernel (arithmetic : RowArithmetic)
    (inputFormat outputFormat : DataTypeFormat) (entries : List (ModifyEntry w)) (sz : Nat)
    (memory : Memory) : Memory :=
  entries.foldl (fun memory entry =>
    accumulateEntry arithmetic inputFormat outputFormat sz entry.dst entry.src memory) memory

def launched32 (numEntries : Nat) : Nat := (numEntries + 31) / 32 * 32

def callTagInvalidateKernel (entries : List (ModifyEntry w)) (numEntries base : Nat)
    (sentinel : BitVec w)
    (tags : Tags w) : Tags w :=
  invalidateTagKernel (entries.take (launched32 numEntries)) base sentinel tags

def callTagUpdateKernel (entries : List (ModifyEntry w)) (numEntries base : Nat) (tags : Tags w) :
    Tags w :=
  tagUpdateKernel (entries.take (launched32 numEntries)) base tags

variable (rowSizeInBytes : Nat)

/-- The element type chosen from the row size: `uint4`, `uint32_t` or a byte. -/
def elementSize : Nat :=
  if rowSizeInBytes % 16 = 0 then 16 else if rowSizeInBytes % 4 = 0 then 4 else 1

def callMemUpdateKernel (entries : List (ModifyEntry w)) (numEntries rowSizeInBytes : Nat)
    (memory : Memory) :
    Memory :=
  memUpdateKernel (elementSize rowSizeInBytes) (entries.take numEntries) rowSizeInBytes memory

/-- `call_mem_update_accumulate_kernel` rejects an input format it has no kernel for.
The assertion on the pair of formats is absent from release builds. -/
def accumulateRefusal (inputFormat : DataTypeFormat) : Option ECError :=
  match inputFormat with
  | .fp16 | .fp32 => none
  | .int8Scaled => some .cudaError

/-- `call_mem_update_accumulate_quantized_kernel` accepts `INT8_SCALED` into `FP16` or `FP32`. -/
def accumulateQuantizedRefusal (inputFormat outputFormat : DataTypeFormat) : Option ECError :=
  if inputFormat ≠ .int8Scaled then some .cudaError
  else match outputFormat with
    | .fp16 | .fp32 => none
    | .int8Scaled => some .cudaError

def callMemUpdateAccumulateKernel (arithmetic : RowArithmetic)
    (inputFormat outputFormat : DataTypeFormat) (entries : List (ModifyEntry w))
    (numEntries rowSizeInBytes : Nat) (memory : Memory) : Memory :=
  memUpdateAccumulateKernel arithmetic inputFormat outputFormat (entries.take numEntries)
    rowSizeInBytes memory

theorem le_launched32 (numEntries : Nat) : numEntries ≤ launched32 numEntries := by
  simp only [launched32]
  omega

theorem elementSize_pos : 0 < elementSize rowSizeInBytes := by
  simp only [elementSize]
  split_ifs <;> omega

theorem elementSize_dvd : elementSize rowSizeInBytes ∣ rowSizeInBytes := by
  simp only [elementSize]
  split_ifs with quad word
  · exact Nat.dvd_of_mod_eq_zero quad
  · exact Nat.dvd_of_mod_eq_zero word
  · exact Nat.one_dvd _

theorem callMemUpdateKernel_eq (entries : List (ModifyEntry w)) (numEntries rowSizeInBytes : Nat)
    (memory : Memory) :
    callMemUpdateKernel entries numEntries rowSizeInBytes memory =
      applyWrites memory ((entries.take numEntries).map fun entry =>
        ⟨entry.dst, rowSizeInBytes, entry.src⟩) := by
  rw [callMemUpdateKernel, memUpdateKernel]
  generalize entries.take numEntries = entries
  induction entries generalizing memory with
  | nil => rfl
  | cons entry rest ih =>
    rw [flatMap_cons, applyWrites_append,
      memcpyWarp_eq_blit _ _ _ _ _ _ (by omega) (elementSize_pos _) (elementSize_dvd _), map_cons,
      applyWrites_cons]
    exact ih _

/-! ### Row by row -/

/-- Each entry's row becomes `result` of what it was and of the source. -/
def rewriteRows (result : (Nat → UInt8) → (Nat → UInt8) → Nat → UInt8)
    (entries : List (ModifyEntry w)) (sz : Nat) (memory : Memory) : Memory :=
  entries.foldl (fun memory entry =>
    blit memory entry.dst sz (result (rowBytes memory entry.dst sz) entry.src)) memory

/-- The additions of a warp to a row that stands alone. -/
def RowArithmetic.rowSum (arithmetic : RowArithmetic) (inputFormat outputFormat : DataTypeFormat)
    (sz : Nat) (old src : Nat → UInt8) : Nat → UInt8 :=
  accumulateEntry arithmetic inputFormat outputFormat sz 0 src old

/-- No element that is added to reaches behind its row. -/
def WholeElements (inputFormat : DataTypeFormat) (sz : Nat) : Prop :=
  (if inputFormat = .int8Scaled then 16 else elementBytes inputFormat) ∣ sz

instance (inputFormat : DataTypeFormat) (sz : Nat) : Decidable (WholeElements inputFormat sz) :=
  inferInstanceAs (Decidable (_ ∣ _))

section Elements

variable (add : (Nat → UInt8) → (Nat → UInt8) → Nat → UInt8) {size sz : Nat} (dst : Nat)

theorem addElements_outside {items : List (Nat × (Nat → UInt8))}
    (within : ∀ item ∈ items, item.1 + size ≤ sz) (memory : Memory) {a : Nat}
    (outside : a < dst ∨ dst + sz ≤ a) : addElements add size dst items memory a = memory a := by
  induction items generalizing memory with
  | nil => rfl
  | cons item rest ih =>
    have here := within item mem_cons_self
    have later := ih (fun other member => within other (mem_cons_of_mem _ member))
      (blit memory (dst + item.1) size (add (rowBytes memory (dst + item.1) size) item.2))
    exact later.trans (blit_outside _ _ _ _ _ (by omega))

/-- Inside the row nothing depends on where the row lies or on what lies around it. -/
theorem addElements_inside {items : List (Nat × (Nat → UInt8))}
    (within : ∀ item ∈ items, item.1 + size ≤ sz) {memory row : Memory}
    (agree : ∀ i < sz, memory (dst + i) = row i) {i : Nat} (bound : i < sz) :
    addElements add size dst items memory (dst + i) = addElements add size 0 items row i := by
  induction items generalizing memory row with
  | nil => exact agree i bound
  | cons item rest ih =>
    have here := within item mem_cons_self
    have bytes : rowBytes memory (dst + item.1) size = rowBytes row (0 + item.1) size := by
      funext j
      simp only [rowBytes, Nat.zero_add, Nat.add_assoc]
      split
      · exact agree _ (by omega)
      · rfl
    apply ih fun other member => within other (mem_cons_of_mem _ member)
    intro j inside
    simp only [bytes, blit, Nat.zero_add, Nat.add_assoc, Nat.add_le_add_iff_left,
      Nat.add_lt_add_iff_left, Nat.add_sub_add_left]
    rw [agree j inside]

theorem addElements_eq_blit {items : List (Nat × (Nat → UInt8))}
    (within : ∀ item ∈ items, item.1 + size ≤ sz) (memory : Memory) :
    addElements add size dst items memory =
      blit memory dst sz (addElements add size 0 items (rowBytes memory dst sz)) := by
  funext a
  by_cases inside : dst ≤ a ∧ a < dst + sz
  · obtain ⟨i, rfl⟩ := Nat.exists_eq_add_of_le inside.1
    rw [blit_inside _ _ _ _ _ inside.1 inside.2, Nat.add_sub_cancel_left]
    exact addElements_inside add dst within (fun j bound => by simp [rowBytes, bound]) (by omega)
  · rw [blit_outside _ _ _ _ _ (by omega), addElements_outside add dst within memory (by omega)]

/-- Elements that do not overlap are added to once each. -/
theorem addElements_element {items : List (Nat × (Nat → UInt8))}
    (apart : items.Pairwise fun first second => first.1 + size ≤ second.1) (memory : Memory)
    {item : Nat × (Nat → UInt8)} (member : item ∈ items) {i : Nat} (bound : i < size) :
    addElements add size dst items memory (dst + item.1 + i) =
      add (rowBytes memory (dst + item.1) size) item.2 i := by
  induction items generalizing memory with
  | nil => exact absurd member not_mem_nil
  | cons first rest ih =>
    obtain ⟨before, apart⟩ := pairwise_cons.mp apart
    rw [addElements, foldl_cons]
    rcases mem_cons.mp member with rfl | later
    · have kept : ∀ (others : List (Nat × (Nat → UInt8))) (memory : Memory),
          (∀ other ∈ others, item.1 + size ≤ other.1) →
          addElements add size dst others memory (dst + item.1 + i) =
            memory (dst + item.1 + i) := by
        intro others
        induction others with
        | nil => exact fun _ _ => rfl
        | cons other others ih =>
          intro memory behind
          have next := behind other mem_cons_self
          refine (ih _ fun item member => behind item (mem_cons_of_mem _ member)).trans ?_
          exact blit_outside _ _ _ _ _ (by omega)
      refine (kept rest _ before).trans ?_
      rw [blit_inside _ _ _ _ _ (by omega) (by omega), Nat.add_sub_cancel_left]
    · have behind := before item later
      refine (ih apart _ later).trans ?_
      congr 1
      funext j
      simp only [rowBytes]
      split
      · exact blit_outside _ _ _ _ _ (by omega)
      · rfl

end Elements

section Accumulation

variable (arithmetic : RowArithmetic) {inputFormat : DataTypeFormat} (outputFormat : DataTypeFormat)
  {sz : Nat} (whole : WholeElements inputFormat sz)

theorem addends_within {format : DataTypeFormat} (src : Nat → UInt8)
    (divides : elementBytes format ∣ sz) :
    ∀ item ∈ addends format src sz, item.1 + elementBytes format ≤ sz := by
  intro item member
  obtain ⟨n, listed, rfl⟩ := mem_map.mp member
  have below := of_decide_eq_true (mem_filter.mp listed).2
  obtain ⟨count, rfl⟩ := divides
  cases format <;> simp only [elementBytes] at below ⊢ <;> omega

theorem quantizedAddends_within (src : Nat → UInt8) (divides : 16 ∣ sz) :
    ∀ item ∈ quantizedAddends arithmetic outputFormat src sz,
      item.1 + elementBytes outputFormat ≤ sz := by
  intro item member
  obtain ⟨n, listed, inner⟩ := mem_flatMap.mp member
  obtain ⟨e, range, rfl⟩ := mem_map.mp inner
  have below := of_decide_eq_true (mem_filter.mp listed).2
  have lane := mem_range.mp range
  obtain ⟨count, rfl⟩ := divides
  have odd : (16 * count / 2 + 2) % 4 ≠ 0 := by omega
  cases outputFormat <;>
    simp only [elementBytes, odd, reduceCtorEq, false_and, true_and, ne_eq,
      not_false_eq_true, if_true,
      if_false] at below lane ⊢ <;> omega

include whole

theorem accumulateEntry_eq_blit (dst : Nat) (src : Nat → UInt8) (memory : Memory) :
    accumulateEntry arithmetic inputFormat outputFormat sz dst src memory =
      blit memory dst sz
        (arithmetic.rowSum inputFormat outputFormat sz (rowBytes memory dst sz) src) := by
  cases inputFormat with
  | fp16 | fp32 => exact addElements_eq_blit _ dst (addends_within src whole) memory
  | int8Scaled =>
    exact addElements_eq_blit _ dst
      (quantizedAddends_within arithmetic outputFormat src whole) memory

/-- Kernels that add whole elements rewrite row by row. -/
theorem memUpdateAccumulateKernel_eq (entries : List (ModifyEntry w)) (memory : Memory) :
    memUpdateAccumulateKernel arithmetic inputFormat outputFormat entries sz memory =
      rewriteRows (arithmetic.rowSum inputFormat outputFormat sz) entries sz memory := by
  simp only [memUpdateAccumulateKernel, rewriteRows,
    accumulateEntry_eq_blit arithmetic outputFormat whole]

end Accumulation

/-- The sum of two rows, element by element. -/
def RowArithmetic.elementSum (arithmetic : RowArithmetic) (format : DataTypeFormat)
    (old src : Nat → UInt8) : Nat → UInt8 := fun i =>
  let start := i / elementBytes format * elementBytes format
  arithmetic.add format (rowBytes old start (elementBytes format))
    (rowBytes src start (elementBytes format)) (i % elementBytes format)

theorem RowArithmetic.rowSum_eq (arithmetic : RowArithmetic) {format : DataTypeFormat}
    (plain : format ≠ .int8Scaled) (outputFormat : DataTypeFormat) {sz : Nat}
    (old src : Nat → UInt8)
    {i : Nat} (bound : i < sz) :
    arithmetic.rowSum format outputFormat sz old src i =
      arithmetic.elementSum format old src i := by
  have positive : 0 < elementBytes format := by cases format <;> decide
  have apart : (addends format src sz).Pairwise
      fun first second => first.1 + elementBytes format ≤ second.1 := by
    apply pairwise_map.mpr
    refine (pairwise_lt_range.filter _).imp fun {first second} less => ?_
    rw [← Nat.succ_mul]
    exact Nat.mul_le_mul_right _ less
  have start : i / elementBytes format * elementBytes format ≤ i := Nat.div_mul_le_self _ _
  have listed : i / elementBytes format ∈ warpElements (elementBytes format) sz := by
    refine mem_filter.mpr ⟨mem_range.mpr ?_, decide_eq_true (by omega)⟩
    have round : i / elementBytes format / 32 ≤ sz / (elementBytes format * 32) := by
      rw [Nat.div_div_eq_div_mul]
      exact Nat.div_le_div_right bound.le
    omega
  have element := addElements_element (arithmetic.add format) 0 apart old (mem_map_of_mem listed)
    (Nat.mod_lt i positive)
  rw [Nat.zero_add, Nat.div_add_mod'] at element
  cases format with
  | fp16 | fp32 => exact element
  | int8Scaled => exact absurd rfl plain

section

variable (entries : List (ModifyEntry w)) (base : Nat)

include entries base

/-- Invalidating and then publishing a list: a tag either is one of the list's or was there
before. -/
theorem tagUpdateKernel_absent (tags : Tags w) (i : Nat)
    (absent : ∀ entry ∈ entries, entry.slot base ≠ i) :
      tagUpdateKernel entries base tags i = tags i := by
  apply setMany_absent
  intro point member
  rcases mem_map.mp member with ⟨entry, present, rfl⟩
  exact absent entry present

variable (sentinel : BitVec w)

theorem invalidateTagKernel_absent (tags : Tags w) (i : Nat)
    (absent : ∀ entry ∈ entries, entry.slot base ≠ i) :
    invalidateTagKernel entries base sentinel tags i = tags i := by
  apply setMany_absent
  intro point member
  rcases mem_map.mp member with ⟨entry, present, rfl⟩
  exact absent entry present

theorem tags_republished_absent (tags : Tags w) (slot : Nat)
    (absent : ∀ entry ∈ entries, entry.slot base ≠ slot) :
    tagUpdateKernel entries base (invalidateTagKernel entries base sentinel tags) slot =
      tags slot := by
  rw [tagUpdateKernel_absent entries base _ slot absent,
    invalidateTagKernel_absent entries base sentinel tags slot absent]

theorem tagUpdateKernel_present (tags : Tags w)
    (entry : ModifyEntry w) (present : entry ∈ entries)
    (agrees : ∀ other ∈ entries, other.slot base = entry.slot base → other.tag = entry.tag) :
    tagUpdateKernel entries base tags (entry.slot base) = entry.tag := by
  apply setMany_target tags (fun _ => entry.tag)
  · intro point member same
    obtain ⟨other, inside, rfl⟩ := mem_map.mp member
    exact agrees other inside same
  · exact ⟨_, mem_map.mpr ⟨entry, present, rfl⟩, rfl⟩

theorem invalidateTagKernel_present (tags : Tags w) (entry : ModifyEntry w)
    (present : entry ∈ entries) :
    invalidateTagKernel entries base sentinel tags (entry.slot base) = sentinel := by
  apply setMany_target tags (fun _ => sentinel)
  · intro point member _
    obtain ⟨_, _, rfl⟩ := mem_map.mp member
    rfl
  · exact ⟨_, mem_map.mpr ⟨entry, present, rfl⟩, rfl⟩

theorem invalidateTagKernel_shrinks (tags : Tags w) (i : Nat) :
    invalidateTagKernel entries base sentinel tags i = sentinel ∨
      invalidateTagKernel entries base sentinel tags i = tags i := by
  rcases setMany_cases tags (entries.map fun entry => (entry.slot base, sentinel))
    i with kept | ⟨point, member, _, value⟩
  · exact .inr kept
  · rcases mem_map.mp member with ⟨entry, _, rfl⟩
    exact .inl value

theorem tagUpdateKernel_cases (tags : Tags w) (i : Nat) :
    tagUpdateKernel entries base tags i = tags i ∨
      ∃ entry ∈ entries, entry.slot base = i ∧ tagUpdateKernel entries base tags i = entry.tag := by
  rcases setMany_cases tags (entries.map fun entry => (entry.slot base, entry.tag)) i with
    kept | ⟨point, member, place, value⟩
  · exact .inl kept
  · rcases mem_map.mp member with ⟨entry, present, rfl⟩
    exact .inr ⟨entry, present, place, value⟩

theorem tagUpdateKernel_congr (tags other : Tags w)
    (agree : ∀ i, (∀ entry ∈ entries, entry.slot base ≠ i) → tags i = other i) :
    tagUpdateKernel entries base tags = tagUpdateKernel entries base other := by
  apply setMany_congr
  intro i absent
  exact agree i fun entry member => absent _ (mem_map.mpr ⟨entry, member, rfl⟩)

theorem tagUpdateKernel_own (tags cleared : Tags w)
    (own : ∀ entry ∈ entries, entry.tag = tags (entry.slot base))
    (untouched : ∀ i, (∀ entry ∈ entries, entry.slot base ≠ i) → cleared i = tags i) :
    tagUpdateKernel entries base cleared = tags := by
  funext i
  by_cases named : ∃ entry ∈ entries, entry.slot base = i
  · rcases named with ⟨entry, member, rfl⟩
    rw [tagUpdateKernel_present entries base cleared entry member, own entry member]
    intro other inside same
    rw [own other inside, own entry member, same]
  · have absent : ∀ entry ∈ entries, entry.slot base ≠ i := fun entry member same =>
      named ⟨entry, member, same⟩
    rw [tagUpdateKernel_absent entries base cleared i absent, untouched i absent]

end

end EmbedCache
