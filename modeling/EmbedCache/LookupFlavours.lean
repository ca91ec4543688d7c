import EmbedCache.LookupKernels

/-! The three lookups deliver the same rows.

Below `2 ^ 32` keys every thread has its own key, and each kernel is the same grid of
subwarps over a different pointer per key. What a grid copies is then a fact about the
pointers alone. The sizes for which all three lookups do what they are for are
characterised exactly. -/

namespace EmbedCache.LookupKernels

open Lib List Nat

variable {w : Nat} {C : Type*}

/-! ### Template arguments -/

theorem callCacheQuery_cases (rowSize : Nat) :
    (callCacheQuery rowSize = ⟨32, 16⟩ ∧ 16 ∣ rowSize) ∨
      (callCacheQuery rowSize = ⟨32, 4⟩ ∧ 4 ∣ rowSize ∧ 16 ∣ rowSize) ∨
      (callCacheQuery rowSize = ⟨4, 16⟩ ∧ 16 ∣ rowSize) ∨ callCacheQuery rowSize = ⟨32, 1⟩ := by
  unfold callCacheQuery
  split_ifs with warps words quarters
  · exact .inl ⟨rfl, by omega⟩
  · exact .inr (.inl ⟨rfl, by omega, by omega⟩)
  · exact .inr (.inr (.inl ⟨rfl, by omega⟩))
  · exact .inr (.inr (.inr rfl))

theorem wholeWarp_cases (rowSize : Nat) :
    (wholeWarp rowSize = ⟨32, 16⟩ ∧ 16 ∣ rowSize) ∨
      (wholeWarp rowSize = ⟨32, 4⟩ ∧ 4 ∣ rowSize ∧ ¬ 16 ∣ rowSize) ∨
      (wholeWarp rowSize = ⟨32, 1⟩ ∧ ¬ 16 ∣ rowSize) := by
  unfold wholeWarp
  split_ifs with vectors words
  · exact .inl ⟨rfl, by omega⟩
  · exact .inr (.inl ⟨rfl, by omega, by omega⟩)
  · exact .inr (.inr ⟨rfl, by omega⟩)

@[simp] theorem wholeWarp_width (rowSize : Nat) : (wholeWarp rowSize).subwarpWidth = 32 := by
  obtain ⟨same, _⟩ | ⟨same, _⟩ | ⟨same, _⟩ := wholeWarp_cases rowSize <;> rw [same]

structure Template.Suits (template : Template) (rowSize : Nat) : Prop where
  lanes : 0 < template.subwarpWidth
  block : template.subwarpWidth ∣ blockSize
  element : 0 < template.elementSize
  whole : template.elementSize ∣ rowSize
  room : template.elementSize * template.subwarpWidth ∣ 2 ^ 32

theorem wholeWarp_suits (rowSize : Nat) : (wholeWarp rowSize).Suits rowSize := by
  obtain ⟨same, divides⟩ | ⟨same, divides, _⟩ | ⟨same, _⟩ := wholeWarp_cases rowSize <;> rw [same]
  · exact ⟨by decide, by decide, by decide, divides, by decide⟩
  · exact ⟨by decide, by decide, by decide, divides, by decide⟩
  · exact ⟨by decide, by decide, by decide, Nat.one_dvd _, by decide⟩

theorem callCacheQuery_suits (rowSize : Nat) : (callCacheQuery rowSize).Suits rowSize := by
  obtain ⟨same, divides⟩ | ⟨same, divides, _⟩ | ⟨same, divides⟩ | same :=
    callCacheQuery_cases rowSize <;> rw [same]
  · exact ⟨by decide, by decide, by decide, divides, by decide⟩
  · exact ⟨by decide, by decide, by decide, divides, by decide⟩
  · exact ⟨by decide, by decide, by decide, divides, by decide⟩
  · exact ⟨by decide, by decide, by decide, Nat.one_dvd _, by decide⟩

theorem callCacheQuery_smaller (rowSize : Nat) :
    (callCacheQuery rowSize).elementSize ∣ (wholeWarp rowSize).elementSize ∧
      (callCacheQuery rowSize).elementSize * (callCacheQuery rowSize).subwarpWidth ≤
        (wholeWarp rowSize).elementSize * (wholeWarp rowSize).subwarpWidth := by
  obtain ⟨whole, _⟩ | ⟨whole, _, no⟩ | ⟨whole, no⟩ := wholeWarp_cases rowSize <;>
    obtain ⟨same, divides⟩ | ⟨same, _, divides⟩ | ⟨same, divides⟩ | same :=
      callCacheQuery_cases rowSize <;>
    rw [whole, same] <;> first | exact absurd divides no | decide

/-! ### Threads and keys -/

theorem blockSize_eq : blockSize = 128 := rfl

theorem threads_dvd (g : Geometry w C) : blockSize ∣ g.threads := dvd_mul_left _ _

theorem numBlocks_eq {len : Nat} (short : len ≤ 2 ^ 32) :
    numBlocks len = len / 128 + min (len % 128) 1 := by
  rw [numBlocks, blockSize_eq]
  exact wrap32_of_lt (by omega)

section Threads

variable {g : Geometry w C} (short : g.len ≤ 2 ^ 32)

include short

theorem threads_le : g.threads ≤ 2 ^ 32 := by
  rw [Geometry.threads, numBlocks_eq short, blockSize_eq]
  omega

theorem len_le_threads : g.len ≤ g.threads := by
  rw [Geometry.threads, numBlocks_eq short, blockSize_eq]
  omega

theorem launchable (some_keys : 0 < g.len) : Launchable (numBlocks g.len) := by
  rw [Launchable, numBlocks_eq short]
  omega

variable {n : Nat} (range : n < g.threads)

include range

theorem queryTid_eq : Contents.queryTid n = n := by
  have bound := threads_le short
  have block : wrap32 (n / 128 * 128) = n / 128 * 128 := wrap32_of_lt (by omega)
  rw [Contents.queryTid, blockSize_eq, block, wrap32_of_lt (by omega)]
  omega

theorem warpPtr_eq : Contents.warpPtr n = n / 32 * 32 := by
  have bound := threads_le short
  rw [Contents.warpPtr, blockSize_eq, blockX, wrap32_of_lt (by omega)]
  omega

theorem tidBatch_eq (rowSize : Nat) : Contents.tidBatch (wholeWarp rowSize) n = n / 32 * 32 := by
  have bound := threads_le short
  rw [Contents.tidBatch, wholeWarp_width, blockSize_eq, blockX, blockY, wrap32_of_lt (by omega)]
  omega

theorem hitMaskSubwarpPtr_eq (rowSize : Nat) :
    Contents.hitMaskSubwarpPtr (wholeWarp rowSize) n = n / 32 * 32 := by
  have bound := threads_le short
  have lane : n % blockX / 32 = 0 := div_eq_of_lt (mod_lt _ (by decide))
  rw [Contents.hitMaskSubwarpPtr, wholeWarp_width, warpPtr_eq short range, lane,
    wrap32_of_lt (by omega)]
  omega

end Threads

theorem subwarp_start {width : Nat} (lanes : 0 < width) (block : width ∣ blockSize) (n : Nat) :
    n / blockSize * blockSize + n % blockSize / width * width = n / width * width := by
  obtain ⟨count, size⟩ := block
  have division : n = width * (count * (n / blockSize)) + n % blockSize := by
    calc
      n = blockSize * (n / blockSize) + n % blockSize := (Nat.div_add_mod n blockSize).symm
      _ = width * (count * (n / blockSize)) + n % blockSize := by
        rw [← Nat.mul_assoc width, ← size]
  have quotient : n / width = count * (n / blockSize) + n % blockSize / width := by
    conv_lhs => rw [division]
    exact Nat.mul_add_div lanes _ _
  calc
    n / blockSize * blockSize + n % blockSize / width * width =
        (count * (n / blockSize) + n % blockSize / width) * width := by
      rw [add_mul, Nat.mul_right_comm count, mul_comm count width, ← size, mul_comm blockSize]
    _ = n / width * width := by rw [quotient]

/-! ### The kernels as grids of subwarps -/

namespace Contents

variable {g : Geometry w C} (contents : Contents g)

/-- The bit of key `i` in the mask passed in. -/
def preset (i : Nat) : Bool := (contents.hitMask (i / 32)).getLsbD (i % 32)

/-- The row that the lookup with a hit mask copies for key `i`. -/
def freshPointer (i : Nat) : Option Source :=
  if contents.preset i then none else contents.queryPointer i

theorem freshPointer_of_le {i : Nat} (behind : g.len ≤ i) : contents.freshPointer i = none := by
  simp [freshPointer, queryPointer, behind]

variable (short : g.len ≤ 2 ^ 32)

include short

theorem query_grid {template : Template} (suits : template.Suits g.rowSize) (fuel : Nat) :
    gather (contents.query template fuel) (range g.threads) =
      gridCopies (2 ^ 32) g.rowSize template.elementSize template.subwarpWidth fuel g.threads
        contents.queryPointer := by
  apply gather_congr
  intro n listed
  have bound := threads_le short
  have range := mem_range.mp listed
  have start := subwarp_start suits.lanes suits.block n
  have before : n / template.subwarpWidth * template.subwarpWidth ≤ n := Nat.div_mul_le_self _ _
  have block : wrap32 (n / blockSize * blockSize) = n / blockSize * blockSize :=
    wrap32_of_lt (by omega)
  have width : template.subwarpWidth ∣ g.threads := dvd_trans suits.block (threads_dvd g)
  -- the last lane of the subwarp is still a thread of the grid
  have lanes : n / template.subwarpWidth * template.subwarpWidth + template.subwarpWidth ≤
      g.threads := by
    obtain ⟨count, total⟩ := width
    have fewer : n / template.subwarpWidth < count :=
      (Nat.div_lt_iff_lt_mul suits.lanes).mpr (by rw [mul_comm, ← total]; exact range)
    calc
      _ = template.subwarpWidth * (n / template.subwarpWidth + 1) := by ring
      _ ≤ template.subwarpWidth * count := Nat.mul_le_mul_left _ fewer
      _ = g.threads := total.symm
  simp only [query]
  rw [block, start, wrap32_of_lt (by omega), Nat.mod_mod_of_dvd n suits.block]
  apply laneCopies_congr
  intro s inside
  rw [← Nat.add_assoc, start, wrap32_of_lt (by omega)]

theorem hitMaskPointer_eq {n : Nat} (range : n < g.threads) {s : Nat} (inside : s < 32) :
    contents.hitMaskPointer (wholeWarp g.rowSize) n s =
      contents.freshPointer (n / 32 * 32 + s) := by
  have bound := threads_le short
  have full : 32 ∣ g.threads := dvd_trans (by decide) (threads_dvd g)
  have lane : n % blockX / 32 = 0 := div_eq_of_lt (mod_lt _ (by decide))
  have tid : wrap32 (n / 32 * 32 + s) = n / 32 * 32 + s := wrap32_of_lt (by omega)
  have word : (n / 32 * 32 + s) / 32 = n / 32 := by omega
  have bit : (n / 32 * 32 + s) % 32 = s := by omega
  simp only [hitMaskPointer, wholeWarp_width, lane, zero_mul, Nat.zero_add,
    hitMaskSubwarpPtr_eq short range,
    warpPtr_eq short range, tid, hitEarlier, freshPointer, preset, queryPointer, word, bit,
    Nat.mul_div_cancel _ (show 0 < 32 by decide)]
  split_ifs <;> rfl

theorem queryHitMask_grid (fuel : Nat) :
    gather (contents.queryHitMask (wholeWarp g.rowSize) fuel) (range g.threads) =
      gridCopies (2 ^ 32) g.rowSize (wholeWarp g.rowSize).elementSize
        (wholeWarp g.rowSize).subwarpWidth fuel g.threads
        contents.freshPointer := by
  rw [wholeWarp_width]
  apply gather_congr
  intro n listed
  have range := mem_range.mp listed
  have lane : n % blockX % 32 = n % 32 := by rw [blockX, Nat.mod_mod]
  simp only [queryHitMask, hitMaskSubwarpPtr_eq short range, wholeWarp_width, lane]
  by_cases behind : g.len ≤ n / 32 * 32
  · rw [if_pos behind]
    symm
    apply laneCopies_of_none
    intro s _
    exact contents.freshPointer_of_le (by omega)
  · rw [if_neg behind]
    apply laneCopies_congr
    intro s inside
    exact contents.hitMaskPointer_eq short range inside

theorem queryUvm_grid (fuel : Nat) :
    gather (contents.queryUvm (wholeWarp g.rowSize) fuel) (range g.threads) =
      gridCopies (2 ^ 32) g.rowSize (wholeWarp g.rowSize).elementSize
        (wholeWarp g.rowSize).subwarpWidth fuel g.threads
        contents.uvmPointer := by
  rw [wholeWarp_width]
  apply gather_congr
  intro n listed
  have bound := threads_le short
  have range := mem_range.mp listed
  have full : 32 ∣ g.threads := dvd_trans (by decide) (threads_dvd g)
  simp only [queryUvm, tidBatch_eq short range, wholeWarp_width, blockX]
  apply laneCopies_congr
  intro s inside
  rw [wrap32_of_lt (by omega)]

end Contents

/-! ### What a launch delivers -/

/-- Row `i` of the output is `source i` where there is one, and nothing else changes. -/
structure Delivered (g : Geometry w C) (before after : Memory)
    (source : Nat → Option (Nat → UInt8)) : Prop where
  found : ∀ i < g.len, ∀ bytes, source i = some bytes →
    ∀ o < g.rowSize, after (i * g.stride + o) = bytes o
  missed : ∀ i < g.len, source i = none →
    ∀ o < g.rowSize, after (i * g.stride + o) = before (i * g.stride + o)
  elsewhere : ∀ a, (∀ i < g.len, ∀ o < g.rowSize, a ≠ i * g.stride + o) → after a = before a

variable {source other : Nat → Option (Nat → UInt8)} {g : Geometry w C}

theorem Delivered.congr {before after : Memory} (delivered : Delivered g before after source)
    (same : g.rowSize = 0 ∨ ∀ i < g.len, source i = other i) : Delivered g before after other := by
  rcases same with empty | same
  · exact ⟨fun _ _ _ _ o below => absurd below (by omega),
      fun _ _ _ o below => absurd below (by omega),
      delivered.elsewhere⟩
  · refine ⟨fun i range bytes shown => delivered.found i range bytes ?_,
      fun i range none => delivered.missed i range ?_,
      delivered.elsewhere⟩
    · rw [same i range, shown]
    · rw [same i range, none]

theorem Geometry.row_unique (g : Geometry w C) {i j o q : Nat} (below : o < g.rowSize)
    (under : q < g.rowSize)
    (same : i * g.stride + o = j * g.stride + q) : i = j ∧ o = q := by
  have spaced : g.rowSize ≤ g.stride := g.spaced
  have row : ∀ k rest, rest < g.rowSize → (k * g.stride + rest) / g.stride = k := by
    intro k rest inside
    rw [mul_comm, Nat.mul_add_div (by omega), div_eq_of_lt (by omega), Nat.add_zero]
  have first := row i o below
  rw [same, row j q under] at first
  subst first
  exact ⟨rfl, by omega⟩

section Launch

variable {g : Geometry w C} {template : Template} (suits : template.Suits g.rowSize)

include suits

theorem store_covers {copy : LaneCopy Source} (below : copy.offset < g.rowSize)
    (element : template.elementSize ∣ copy.offset) {a : Nat}
    (covers : (g.store template copy).Covers a) :
    ∃ o < g.rowSize, a = copy.position * g.stride + o ∧
      (g.store template copy).source (a - (g.store template copy).address) =
        copy.source.bytes o := by
  obtain ⟨lower, upper⟩ := covers
  simp only [Geometry.store] at lower upper ⊢
  have last : copy.offset + template.elementSize ≤ g.rowSize := by
    obtain ⟨index, place⟩ := element
    obtain ⟨count, size⟩ := suits.whole
    rw [place, size] at below ⊢
    have fewer := Nat.lt_of_mul_lt_mul_left below
    calc
      _ = template.elementSize * (index + 1) := by ring
      _ ≤ template.elementSize * count := Nat.mul_le_mul_left _ fewer
  refine ⟨a - copy.position * g.stride, by omega, by omega, ?_⟩
  congr 1
  omega

omit suits in
theorem aligned_iff {copy : LaneCopy Source} (element : template.elementSize ∣ copy.offset) :
    g.Aligned template copy ↔ (template.elementSize : Int) ∣ copy.source.address ∧
      template.elementSize ∣ g.dValues + copy.position * g.stride := by
  rw [Geometry.Aligned, dvd_add_left (Int.natCast_dvd_natCast.mpr element),
    Nat.dvd_add_left element]

/-- The copies of a grid, in any order, deliver the rows that its pointers name. -/
theorem applyWrites_delivers {before : Memory} {pointer : Nat → Option Source}
    {copies : List (LaneCopy Source)}
    (behind : ∀ i, g.len ≤ i → pointer i = none) (inside : g.len ≤ g.threads)
    (listed : ∀ copy, copy ∈ copies ↔ copy.position < g.threads ∧
      pointer copy.position = some copy.source ∧
      copy.offset < g.rowSize ∧ template.elementSize ∣ copy.offset)
    {writes : List (Write UInt8)} (perm : writes.Perm (copies.map (g.store template))) :
    Delivered g before (applyWrites before writes) fun i => (pointer i).map Source.bytes := by
  -- every store lies in the row of its key
  have placed : ∀ write ∈ writes, ∀ a, write.Covers a → ∃ j o source, o < g.rowSize ∧ j < g.len ∧
      pointer j = some source ∧ a = j * g.stride + o ∧
        write.source (a - write.address) = source.bytes o := by
    intro write member a covers
    obtain ⟨copy, present, rfl⟩ := mem_map.mp (perm.mem_iff.mp member)
    obtain ⟨_, shown, below, element⟩ := (listed copy).mp present
    obtain ⟨o, small, place, value⟩ := store_covers suits below element covers
    have real : copy.position < g.len := by
      by_contra beyond
      rw [behind copy.position (by omega)] at shown
      cases shown
    exact ⟨copy.position, o, copy.source, small, real, shown, place, value⟩
  constructor
  · intro i range bytes shown o below
    obtain ⟨source, here, rfl⟩ := Option.map_eq_some_iff.mp shown
    apply applyWrites_target before (fun _ => source.bytes o)
    · intro write member covers
      obtain ⟨j, q, other, under, _, named, place, value⟩ := placed write member _ covers
      obtain ⟨rfl, rfl⟩ := g.row_unique below under place
      rw [value, Option.some.inj (named.symm.trans here)]
    · have index : o / template.elementSize * template.elementSize ≤ o := Nat.div_mul_le_self _ _
      have next : o < o / template.elementSize * template.elementSize + template.elementSize := by
        have division := Nat.div_add_mod' o template.elementSize
        have rest := mod_lt o suits.element
        omega
      have present :
          (⟨i, o / template.elementSize * template.elementSize, source⟩ : LaneCopy Source) ∈
          copies :=
        (listed _).mpr ⟨lt_of_lt_of_le range inside, here, lt_of_le_of_lt index below,
          dvd_mul_left _ _⟩
      refine ⟨_, perm.mem_iff.mpr (mem_map.mpr ⟨_, present, rfl⟩), ?_⟩
      simp only [Write.Covers, Geometry.store]
      omega
  · intro i range none o below
    have absent : pointer i = Option.none := Option.map_eq_none_iff.mp none
    apply applyWrites_untouched
    intro write member covers
    obtain ⟨j, q, other, under, _, named, place, _⟩ := placed write member _ covers
    obtain ⟨rfl, _⟩ := g.row_unique below under place
    rw [absent] at named
    cases named
  · intro a outside
    apply applyWrites_untouched
    intro write member covers
    obtain ⟨j, q, _, under, real, _, place, _⟩ := placed write member a covers
    exact outside j real q under place

variable {contents : Contents g} {kernel : Nat → Option (List (LaneCopy Source))}
  {pointer : Nat → Option Source}
  {fuel : Nat} (short : g.len ≤ 2 ^ 32)
  (room : g.rowSize + template.elementSize * template.subwarpWidth ≤ 2 ^ 32)
  (behind : ∀ i, g.len ≤ i → pointer i = none)
  (grid : gather kernel (List.range g.threads) =
    gridCopies (2 ^ 32) g.rowSize template.elementSize template.subwarpWidth fuel g.threads pointer)

include short room behind grid

variable {stores : Arrangement (Write UInt8)}

theorem launch_delivers {after : Memory}
    (launched : launch contents template kernel stores = some after) :
    Delivered g contents.values after fun i => (pointer i).map Source.bytes := by
  rw [launch] at launched
  split at launched
  · obtain ⟨copies, gathered, checked⟩ := Option.bind_eq_some_iff.mp launched
    split at checked
    · cases checked
      rw [grid] at gathered
      exact applyWrites_delivers suits behind (len_le_threads short)
        (mem_gridCopies_iff room suits.lanes (dvd_trans suits.block (threads_dvd g))
          (threads_le short) gathered)
        (stores.perm _)
    · cases checked
  · cases launched

omit behind in
theorem launch_aligned (went : (launch contents template kernel stores).isSome = true)
    (some_bytes : 0 < g.rowSize)
    {i : Nat} (range : i < g.len) {source : Source} (shown : pointer i = some source) :
    (template.elementSize : Int) ∣ source.address ∧
      template.elementSize ∣ g.dValues + i * g.stride := by
  rw [launch] at went
  split at went
  · rw [grid] at went
    obtain ⟨after, launched⟩ := Option.isSome_iff_exists.mp went
    obtain ⟨copies, gathered, checked⟩ := Option.bind_eq_some_iff.mp launched
    split at checked
    · rename_i all
      have listed :=
        mem_gridCopies_iff room suits.lanes (dvd_trans suits.block (threads_dvd g))
          (threads_le short)
        gathered
      -- the first element of the row tells for all of them
      have present : (⟨i, 0, source⟩ : LaneCopy Source) ∈ copies :=
        (listed _).mpr ⟨lt_of_lt_of_le range (len_le_threads short), shown, some_bytes,
          Nat.dvd_zero _⟩
      exact (aligned_iff (Nat.dvd_zero _)).mp (all _ present)
    · cases checked
  · cases went

theorem launch_isSome (some_keys : 0 < g.len) (enough : g.rowSize < fuel)
    (addresses : g.rowSize = 0 ∨ ∀ i < g.len, ∀ source, pointer i = some source →
      (template.elementSize : Int) ∣ source.address ∧
        template.elementSize ∣ g.dValues + i * g.stride)
    (stores : Arrangement (Write UInt8)) :
      (launch contents template kernel stores).isSome = true := by
  have stride : 0 < template.elementSize * template.subwarpWidth :=
    Nat.mul_pos suits.element suits.lanes
  have ended :
      (gridCopies (2 ^ 32) g.rowSize template.elementSize template.subwarpWidth fuel g.threads
      pointer).isSome
      = true := by
    obtain ⟨rounds, rfl⟩ : ∃ rounds, fuel = rounds + 1 := ⟨fuel - 1, by omega⟩
    rw [gridCopies, gather_isSome_iff]
    intro n _
    exact laneCopies_isSome room (le_trans (by omega) (Nat.le_mul_of_pos_right rounds stride)) _ _ _
  obtain ⟨copies, gathered⟩ := Option.isSome_iff_exists.mp ended
  have listed :=
    mem_gridCopies_iff room suits.lanes (dvd_trans suits.block (threads_dvd g)) (threads_le short)
    gathered
  have checked : ∀ copy ∈ copies, g.Aligned template copy := by
    intro copy present
    obtain ⟨_, shown, below, element⟩ := (listed copy).mp present
    rcases addresses with empty | addresses
    · omega
    · have real : copy.position < g.len := by
        by_contra beyond
        rw [behind copy.position (by omega)] at shown
        cases shown
      exact (aligned_iff element).mpr (addresses copy.position real copy.source shown)
  rw [launch, if_pos (launchable short some_keys), grid, gathered, Option.bind_some, if_pos checked]
  rfl

end Launch

/-! ### Misses, missing lists and masks -/

theorem filter_range_lt {len total : Nat} (inside : len ≤ total) (p : Nat → Bool) :
    (range total).filter (fun n => decide (n < len) && p n) = (range len).filter p := by
  obtain ⟨rest, rfl⟩ := Nat.exists_eq_add_of_le inside
  have front : (range len).filter (fun n => decide (n < len) && p n) = (range len).filter p := by
    apply filter_congr
    intro n listed
    simp [mem_range.mp listed]
  have back : ((range rest).map (len + ·)).filter (fun n => decide (n < len) && p n) = [] := by
    rw [filter_eq_nil_iff]
    intro n listed
    obtain ⟨k, _, rfl⟩ := mem_map.mp listed
    simp
  rw [range_add, filter_append, front, back, append_nil]

theorem getLsbD_joined (words : List (Nat × BitVec 32)) (mask : Nat → BitVec 32) (j b : Nat) :
    (joinWords mask words j).getLsbD b = true ↔
      (mask j).getLsbD b = true ∨ ∃ word ∈ words, word.1 = j ∧ word.2.getLsbD b = true := by
  induction words generalizing mask with
  | nil => simp [joinWords]
  | cons word rest ih =>
    rw [joinWords, foldl_cons, ← joinWords, ih]
    by_cases here : word.1 = j
    · subst here
      simp [Bitmask.getLsbD_join, or_assoc]
    · rw [Function.update_of_ne (Ne.symm here)]
      simp [here]

theorem getLsbD_setWhere (p : Nat → Bool) (places : List Nat) (mask : BitVec 32) {b : Nat}
    (range : b < 32) :
    (places.foldl (fun mask s => if p s then Bitmask.set mask s else mask) mask).getLsbD b = true ↔
      mask.getLsbD b = true ∨ (b ∈ places ∧ p b = true) := by
  induction places generalizing mask with
  | nil => simp
  | cons s rest ih =>
    rw [foldl_cons, ih]
    by_cases chosen : p s = true
    · rw [if_pos chosen, Bitmask.getLsbD_set mask s range]
      by_cases here : b = s
      · subst here
        simp [chosen]
      · simp [here]
    · rw [if_neg chosen]
      by_cases here : b = s
      · subst here
        simp [chosen]
      · simp [here]

namespace Contents

variable {g : Geometry w C} (contents : Contents g)

def absent : List (Nat × BitVec w) :=
  ((List.range g.len).filter fun i => !contents.resident i).map fun i => (i, contents.key i)

theorem freshPointer_isSome (i : Nat) :
    (contents.freshPointer i).isSome =
      (!contents.preset i && (decide (i < g.len) && contents.resident i)) := by
  by_cases set : contents.preset i = true <;> by_cases behind : g.len ≤ i <;>
    simp [freshPointer, queryPointer, queryAddress, resident, set, behind, Nat.not_lt.mpr,
      Nat.lt_of_not_le]

variable (short : g.len ≤ 2 ^ 32)

include short

theorem missing_eq : contents.missing = contents.absent := by
  rw [absent, ← filter_range_lt (len_le_threads short), ← filterMap_eq_map,
    filterMap_filter, missing]
  apply filterMap_congr
  intro n listed
  simp only [queryTid_eq short (mem_range.mp listed)]
  simp

theorem hitMaskMiss_count :
    (range g.threads).countP (contents.hitMaskMiss (wholeWarp g.rowSize)) =
      (range g.len).countP fun i => !contents.preset i && !contents.resident i := by
  rw [countP_eq_length_filter, countP_eq_length_filter, ← filter_range_lt (len_le_threads short)]
  congr 1
  apply filter_congr
  intro n listed
  have bound := threads_le short
  have range := mem_range.mp listed
  have tid : wrap32 (n / 32 * 32 + n % 32) = n := by
    rw [Nat.div_add_mod']
    exact wrap32_of_lt (by omega)
  have word : n / 32 * 32 / 32 = n / 32 := by omega
  have warp : (decide (n / 32 * 32 < g.len) && decide (n < g.len)) = decide (n < g.len) := by
    by_cases inside : n < g.len
    · simp [inside]
      omega
    · simp [inside]
  simp only [hitMaskMiss, warpPtr_eq short range, hitMaskSubwarpPtr_eq short range, blockX, tid,
    hitEarlier, word, warp,
    preset]
  rw [Bool.and_assoc]

theorem uvmMiss_count :
    (range g.threads).countP (contents.uvmMiss (wholeWarp g.rowSize)) =
      (range g.len).countP fun i => !contents.resident i := by
  rw [countP_eq_length_filter, countP_eq_length_filter, ← filter_range_lt (len_le_threads short)]
  congr 1
  apply filter_congr
  intro n listed
  have bound := threads_le short
  have range := mem_range.mp listed
  have tid : wrap32 (n / 32 * 32 + n % 32) = n := by
    rw [Nat.div_add_mod']
    exact wrap32_of_lt (by omega)
  simp only [uvmMiss, tidBatch_eq short range, blockX, tid]

theorem localHitMask_getLsbD {n : Nat} (range : n < g.threads) {b : Nat} (bit : b < 32) :
    (contents.localHitMask (wholeWarp g.rowSize) n).getLsbD b = true ↔
      (contents.freshPointer (n / 32 * 32 + b)).isSome = true := by
  rw [localHitMask, wholeWarp_width, getLsbD_setWhere _ _ _ bit,
    contents.hitMaskPointer_eq short range bit]
  simp [bit]

theorem hitMask_joined {words : List (Nat × BitVec 32)}
    (perm : words.Perm (contents.hitMaskStores (wholeWarp g.rowSize))) (j : Nat) {b : Nat}
    (bit : b < 32) :
    (joinWords contents.hitMask words j).getLsbD b =
      ((contents.hitMask j).getLsbD b ||
        (decide (j * 32 + b < g.len) && contents.resident (j * 32 + b))) := by
  have word : (j * 32 + b) / 32 = j := by omega
  have place : (j * 32 + b) % 32 = b := by omega
  have set : contents.preset (j * 32 + b) =
      (contents.hitMask j).getLsbD b := by rw [preset, word, place]
  have joined : (∃ word ∈ words, word.1 = j ∧ word.2.getLsbD b = true) ↔
      (contents.freshPointer (j * 32 + b)).isSome = true := by
    constructor
    · rintro ⟨word, member, same, shown⟩
      obtain ⟨n, listed, chosen⟩ := mem_filterMap.mp (perm.mem_iff.mp member)
      have range := mem_range.mp listed
      simp only [hitMaskSubwarpPtr_eq short range] at chosen
      split at chosen
      · rename_i first
        cases chosen
        have lane : n % 32 = 0 := first.2
        rw [contents.localHitMask_getLsbD short range bit] at shown
        rw [show j * 32 = n / 32 * 32 by omega]
        exact shown
      · cases chosen
    · intro shown
      have inside : j * 32 + b < g.len := by
        rw [freshPointer_isSome] at shown
        simp only [Bool.and_eq_true, decide_eq_true_eq] at shown
        exact shown.2.1
      have within := len_le_threads short
      have range : j * 32 < g.threads := by omega
      have start : j * 32 / 32 * 32 = j * 32 := by omega
      refine ⟨(j, contents.localHitMask (wholeWarp g.rowSize) (j * 32)),
        perm.mem_iff.mpr ?_, rfl, ?_⟩
      · refine mem_filterMap.mpr ⟨j * 32, mem_range.mpr range, ?_⟩
        simp only [hitMaskSubwarpPtr_eq short range, start]
        rw [if_pos ⟨by omega, by rw [blockX]; omega⟩, Nat.mul_div_cancel _ (by decide)]
      · rw [contents.localHitMask_getLsbD short range bit, start]
        exact shown
  rw [Bool.eq_iff_iff, getLsbD_joined, joined, freshPointer_isSome, set]
  cases (contents.hitMask j).getLsbD b <;> simp

end Contents

/-! ### The lookups -/

variable {g : Geometry w C}

theorem Delivered.of_empty (empty : g.len = 0) (memory : Memory)
    (source : Nat → Option (Nat → UInt8)) : Delivered g memory memory source :=
  ⟨fun _ range => absurd range (by omega), fun _ range => absurd range (by omega), fun _ _ => rfl⟩

/-- The loop counter of the widest elements passes the end of a row without starting over. -/
def Geometry.Room (g : Geometry w C) : Prop :=
  g.rowSize + (wholeWarp g.rowSize).elementSize * 32 ≤ 2 ^ 32

theorem Geometry.Room.wholeWarp (room : g.Room) :
    g.rowSize + (wholeWarp g.rowSize).elementSize *
      (wholeWarp g.rowSize).subwarpWidth ≤ 2 ^ 32 := by
  rw [wholeWarp_width]
  exact room

theorem Geometry.Room.query (room : g.Room) :
    g.rowSize + (callCacheQuery g.rowSize).elementSize * (callCacheQuery g.rowSize).subwarpWidth ≤
      2 ^ 32 := by
  have smaller := (callCacheQuery_smaller g.rowSize).2
  have whole := room.wholeWarp
  omega

section Lookups

variable {g : Geometry w C} {contents : Contents g} {fuel : Nat} {schedule : Schedule w}
  (short : g.len ≤ 2 ^ 32) (room : g.Room)

include short room

theorem lookupHitMask_delivers {out : Outcome (Nat → BitVec 32)}
    (returned : lookupHitMask contents fuel schedule = some out) :
    Delivered g contents.values out.values fun i => (contents.freshPointer i).map Source.bytes := by
  rw [lookupHitMask] at returned
  split at returned
  · cases returned
    exact Delivered.of_empty ‹_› _ _
  · obtain ⟨values, launched, rfl⟩ := Option.map_eq_some_iff.mp returned
    exact launch_delivers (wholeWarp_suits g.rowSize) short room.wholeWarp
      (fun i => contents.freshPointer_of_le)
      (contents.queryHitMask_grid short fuel) launched

theorem lookupMissing_delivers {out : Outcome (List (Nat × BitVec w))}
    (returned : lookupMissing contents fuel schedule = some out) :
    Delivered g contents.values out.values fun i => (contents.queryPointer i).map Source.bytes := by
  rw [lookupMissing] at returned
  split at returned
  · cases returned
    exact Delivered.of_empty ‹_› _ _
  · obtain ⟨values, launched, rfl⟩ := Option.map_eq_some_iff.mp returned
    exact launch_delivers (callCacheQuery_suits g.rowSize) short room.query
      (fun i behind => by simp [Contents.queryPointer, behind])
      (contents.query_grid short (callCacheQuery_suits g.rowSize) fuel) launched

theorem lookupUvm_delivers {out : Outcome Unit}
    (returned : lookupUvm contents fuel schedule = some out) :
    Delivered g contents.values out.values fun i => (contents.uvmPointer i).map Source.bytes := by
  rw [lookupUvm] at returned
  split at returned
  · cases returned
    exact Delivered.of_empty ‹_› _ _
  · obtain ⟨values, launched, rfl⟩ := Option.map_eq_some_iff.mp returned
    exact launch_delivers (wholeWarp_suits g.rowSize) short room.wholeWarp
      (fun i behind => by simp [Contents.uvmPointer, behind])
        (contents.queryUvm_grid short fuel) launched

end Lookups

/-! ### Agreement -/

namespace Contents

variable {g : Geometry w C} (contents : Contents g)

def cacheRow (i : Nat) : Option (Nat → UInt8) :=
  (getAddress g.cfg g.table contents.tags (contents.key i)).map fun offset o =>
    contents.rows (offset + o)

def uvmRow (i : Nat) : Nat → UInt8 := (contents.uvmSource (contents.key i)).bytes

structure Agree : Prop where
  returns : ∃ fuel, ∀ schedule, (lookupHitMask contents fuel schedule).isSome = true ∧
    (lookupMissing contents fuel schedule).isSome = true ∧
      (lookupUvm contents fuel schedule).isSome = true
  mask : ∀ fuel schedule out, lookupHitMask contents fuel schedule = some out → ∀ j, ∀ b < 32,
    (out.report j).getLsbD b =
      ((contents.hitMask j).getLsbD b ||
        (decide (j * 32 + b < g.len) && contents.resident (j * 32 + b)))
  masked : ∀ fuel schedule out, lookupHitMask contents fuel schedule = some out →
    Delivered g contents.values out.values fun i =>
      if contents.preset i then none else contents.cacheRow i
  list : ∀ fuel schedule out, lookupMissing contents fuel schedule = some out →
    out.report.Perm contents.absent
  listed : ∀ fuel schedule out, lookupMissing contents fuel schedule = some out →
    Delivered g contents.values out.values contents.cacheRow
  uvm : ∀ fuel schedule out, lookupUvm contents fuel schedule = some out →
    Delivered g contents.values out.values fun i =>
      some ((contents.cacheRow i).getD (contents.uvmRow i))
  misses : (∀ j, contents.hitMask j = 0) → ∀ fuel schedule masked listed mapped,
    lookupHitMask contents fuel schedule = some masked →
      lookupMissing contents fuel schedule = some listed →
      lookupUvm contents fuel schedule = some mapped →
        masked.misses = listed.misses ∧ listed.misses = mapped.misses

end Contents

/-- The sizes for which rows of at least one byte are copied as intended. -/
structure Geometry.RowsFit (g : Geometry w C) : Prop where
  slots : (g.table + 1) * g.cfg.numSets * numWays ≤ 2 ^ 32
  room : g.Room
  values : (wholeWarp g.rowSize).elementSize ∣ g.dValues
  stride : g.len = 1 ∨ (wholeWarp g.rowSize).elementSize ∣ g.stride
  uvm : (wholeWarp g.rowSize).elementSize ∣ g.dTable

structure Geometry.Fits (g : Geometry w C) : Prop where
  length : g.len ≤ 2 ^ 32
  rows : g.rowSize = 0 ∨ g.RowsFit

theorem Geometry.Fits.room (fits : g.Fits) : g.Room := by
  rcases fits.rows with empty | rows
  · rw [Geometry.Room, empty]
    decide
  · exact rows.room

theorem wayOfMask_lt {cfg : CacheConfig w C} {table : Nat} {tags : Tags w}
    {key : BitVec w} {way : Nat}
    (found : wayOfMask cfg table tags key = some way) : way < numWays := by
  simp only [wayOfMask, searchWays] at found
  exact mem_range.mp (mem_of_find?_eq_some found)

/-- A table that ends below slot `2 ^ 32` has the same row addresses in 32 and in 64 bits. -/
theorem queryAddress_eq_getAddress (g : Geometry w C)
    (slots : (g.table + 1) * g.cfg.numSets * numWays ≤ 2 ^ 32)
    (tags : Tags w) (key : BitVec w) :
      queryAddress g.cfg g.table tags key = getAddress g.cfg g.table tags key := by
  simp only [queryAddress, getAddress, wrap32_of_lt g.narrow]
  cases found : wayOfMask g.cfg g.table tags key with
  | none => rfl
  | some way =>
    have small := wayOfMask_lt found
    have hash := hashSetIdx_lt key g.cfg.numSets g.positive
    have inside : g.table * g.cfg.numSets * numWays + hashSetIdx key g.cfg.numSets * numWays + way <
        2 ^ 32 := by
      rw [add_mul, add_mul, one_mul] at slots
      simp only [numWays] at slots small ⊢
      omega
    rw [Option.map_some, Option.map_some, wrap32_of_lt inside]

section Sufficient

variable {g : Geometry w C} (contents : Contents g) {i : Nat}

theorem queryPointer_bytes (slots : (g.table + 1) * g.cfg.numSets * numWays ≤ 2 ^ 32)
    (range : i < g.len) :
    (contents.queryPointer i).map Source.bytes = contents.cacheRow i := by
  rw [Contents.queryPointer, if_neg (by omega), queryAddress_eq_getAddress g slots, Option.map_map]
  rfl

theorem uvmPointer_bytes (range : i < g.len) :
    (contents.uvmPointer i).map Source.bytes =
      some ((contents.cacheRow i).getD (contents.uvmRow i)) := by
  rw [Contents.uvmPointer, if_neg (by omega), Contents.cacheRow]
  cases getAddress g.cfg g.table contents.tags (contents.key i) with
  | none =>
    rw [if_neg g.mapped]
    rfl
  | some offset => rfl

theorem queryPointer_aligned {element : Nat} (whole : element ∣ g.rowSize) {source : Source}
    (shown : contents.queryPointer i = some source) : (element : Int) ∣ source.address := by
  rw [Contents.queryPointer] at shown
  split at shown
  · cases shown
  · obtain ⟨offset, found, rfl⟩ := Option.map_eq_some_iff.mp shown
    obtain ⟨way, _, rfl⟩ := Option.map_eq_some_iff.mp found
    exact Int.natCast_dvd_natCast.mpr (dvd_trans whole (dvd_mul_left _ _))

theorem uvmPointer_aligned {element : Nat} (whole : element ∣ g.rowSize)
    (table : element ∣ g.dTable)
    {source : Source} (shown : contents.uvmPointer i = some source) :
    (element : Int) ∣ source.address := by
  rw [Contents.uvmPointer] at shown
  split at shown
  · cases shown
  · split at shown
    · rename_i offset found
      cases shown
      obtain ⟨way, _, rfl⟩ := Option.map_eq_some_iff.mp found
      exact Int.natCast_dvd_natCast.mpr (dvd_trans whole (dvd_mul_left _ _))
    · split at shown
      · cases shown
      · cases shown
        exact Dvd.dvd.add (Int.natCast_dvd_natCast.mpr table)
          (Dvd.dvd.mul_left (Int.natCast_dvd_natCast.mpr whole) _)

theorem values_aligned (rows : g.RowsFit) (range : i < g.len) :
    (wholeWarp g.rowSize).elementSize ∣ g.dValues + i * g.stride := by
  refine Nat.dvd_add rows.values ?_
  rcases rows.stride with single | stride
  · rw [show i = 0 by omega, zero_mul]
    exact Nat.dvd_zero _
  · exact dvd_trans stride (dvd_mul_left _ _)

variable (fits : g.Fits)

include fits

theorem lookups_return (some_keys : 0 < g.len) (schedule : Schedule w) :
    (lookupHitMask contents (g.rowSize + 1) schedule).isSome = true ∧
      (lookupMissing contents (g.rowSize + 1) schedule).isSome = true ∧
        (lookupUvm contents (g.rowSize + 1) schedule).isSome = true := by
  have suits := wholeWarp_suits g.rowSize
  have enough := Nat.lt_succ_self g.rowSize
  have room := fits.room.wholeWarp
  simp only [lookupHitMask, lookupMissing, lookupUvm, if_neg some_keys.ne', Option.isSome_map]
  refine ⟨launch_isSome suits fits.length room (fun i => contents.freshPointer_of_le)
    (contents.queryHitMask_grid fits.length _)
      some_keys enough ?_ _,
    launch_isSome (callCacheQuery_suits g.rowSize) fits.length fits.room.query
      (fun i behind => by simp [Contents.queryPointer, behind])
        (contents.query_grid fits.length (callCacheQuery_suits g.rowSize) _)
      some_keys enough ?_ _,
    launch_isSome suits fits.length room (fun i behind => by simp [Contents.uvmPointer, behind])
      (contents.queryUvm_grid fits.length _) some_keys enough ?_ _⟩
  · refine fits.rows.imp_right fun rows i range source shown => ⟨?_, values_aligned rows range⟩
    rw [Contents.freshPointer] at shown
    split at shown
    · cases shown
    · exact queryPointer_aligned contents suits.whole shown
  · refine fits.rows.imp_right fun rows i range source shown => ⟨?_, ?_⟩
    · exact queryPointer_aligned contents (callCacheQuery_suits g.rowSize).whole shown
    · exact dvd_trans (callCacheQuery_smaller g.rowSize).1 (values_aligned rows range)
  · exact fits.rows.imp_right fun rows i range source shown =>
      ⟨uvmPointer_aligned contents suits.whole rows.uvm shown, values_aligned rows range⟩

theorem sources_agree (same : (g.table + 1) * g.cfg.numSets * numWays ≤ 2 ^ 32 →
      ∀ i < g.len, source i = other i) :
    g.rowSize = 0 ∨ ∀ i < g.len, source i = other i :=
  fits.rows.imp_right fun rows => same rows.slots

theorem agree_of_fits (some_keys : 0 < g.len) : contents.Agree where
  returns := ⟨g.rowSize + 1, lookups_return contents fits some_keys⟩
  mask := by
    intro fuel schedule out returned j b bit
    rw [lookupHitMask, if_neg some_keys.ne'] at returned
    obtain ⟨values, _, rfl⟩ := Option.map_eq_some_iff.mp returned
    exact contents.hitMask_joined fits.length (schedule.words.perm _) j bit
  masked := by
    intro fuel schedule out returned
    refine (lookupHitMask_delivers fits.length fits.room returned).congr (sources_agree fits ?_)
    intro slots i range
    simp only [Contents.freshPointer]
    split
    · rfl
    · exact queryPointer_bytes contents slots range
  list := by
    intro fuel schedule out returned
    rw [lookupMissing, if_neg some_keys.ne'] at returned
    obtain ⟨values, _, rfl⟩ := Option.map_eq_some_iff.mp returned
    rw [← contents.missing_eq fits.length]
    exact schedule.reports.perm _
  listed := by
    intro fuel schedule out returned
    refine (lookupMissing_delivers fits.length fits.room returned).congr (sources_agree fits ?_)
    intro slots i range
    exact queryPointer_bytes contents slots range
  uvm := by
    intro fuel schedule out returned
    refine (lookupUvm_delivers fits.length fits.room returned).congr (sources_agree fits ?_)
    intro _ i range
    exact uvmPointer_bytes contents range
  misses := by
    intro zero fuel schedule masked listed mapped hit list uvm
    rw [lookupHitMask, if_neg some_keys.ne'] at hit
    rw [lookupMissing, if_neg some_keys.ne'] at list
    rw [lookupUvm, if_neg some_keys.ne'] at uvm
    obtain ⟨_, _, rfl⟩ := Option.map_eq_some_iff.mp hit
    obtain ⟨_, _, rfl⟩ := Option.map_eq_some_iff.mp list
    obtain ⟨_, _, rfl⟩ := Option.map_eq_some_iff.mp uvm
    have unset : ∀ i, contents.preset i = false := by
      intro i
      rw [Contents.preset, zero]
      exact BitVec.getLsbD_zero
    have absent : contents.absent.length = (range g.len).countP fun i => !contents.resident i := by
      rw [Contents.absent, length_map, countP_eq_length_filter]
    constructor
    · simp only [callCacheQueryHitMask, contents.hitMaskMiss_count fits.length,
        contents.missing_eq fits.length, absent,
        unset, Bool.not_false, Bool.true_and]
    · simp only [callCacheQueryUvm, contents.uvmMiss_count fits.length,
        contents.missing_eq fits.length, absent]

end Sufficient

theorem agree_of_empty (contents : Contents g) (empty : g.len = 0) : contents.Agree := by
  have masked : ∀ fuel schedule, lookupHitMask contents fuel schedule =
      some ⟨contents.values, contents.misses, contents.hitMask⟩ := fun _ _ => if_pos empty
  have listed : ∀ fuel schedule, lookupMissing contents fuel schedule =
      some ⟨contents.values, contents.misses, []⟩ := fun _ _ => if_pos empty
  have mapped : ∀ fuel schedule, lookupUvm contents fuel schedule =
      some ⟨contents.values, contents.misses, ()⟩ := fun _ _ => if_pos empty
  constructor
  · exact ⟨0, fun schedule => by rw [masked, listed, mapped]; exact ⟨rfl, rfl, rfl⟩⟩
  · intro fuel schedule out returned j b _
    cases (masked fuel schedule).symm.trans returned
    simp [empty]
  · intro fuel schedule out returned
    cases (masked fuel schedule).symm.trans returned
    exact Delivered.of_empty empty _ _
  · intro fuel schedule out returned
    cases (listed fuel schedule).symm.trans returned
    simp [Contents.absent, empty]
  · intro fuel schedule out returned
    cases (listed fuel schedule).symm.trans returned
    exact Delivered.of_empty empty _ _
  · intro fuel schedule out returned
    cases (mapped fuel schedule).symm.trans returned
    exact Delivered.of_empty empty _ _
  · intro _ fuel schedule _ _ _ hit list uvm
    cases (masked fuel schedule).symm.trans hit
    cases (listed fuel schedule).symm.trans list
    cases (mapped fuel schedule).symm.trans uvm
    exact ⟨rfl, rfl⟩

/-! ### The condition cannot be dropped -/

section Necessary

variable (g : Geometry w C)

def repeated (tags : Tags w) (rows : Memory) (key : BitVec w) : Contents g where
  tags := tags
  rows := rows
  uvm := fun _ => 0
  keys := List.replicate g.len key
  counted := List.length_replicate
  values := fun _ => 0
  hitMask := fun _ => 0
  countMisses := true
  misses := 0

variable {g} {key : BitVec w}

theorem repeated_key {tags : Tags w} {rows : Memory} {i : Nat} (range : i < g.len) :
    (repeated g tags rows key).key i = key := by
  simp [Contents.key, repeated, range]

theorem constructKey_one (small : key.toNat < g.cfg.numSets) :
    constructKey 1#w (hashSetIdx key g.cfg.numSets) g.cfg.numSets ≠ key := by
  have range : g.cfg.numSets < 2 ^ w :=
    lt_of_lt_of_le g.narrow (Nat.pow_le_pow_right (by decide) g.wide)
  have one : (1#w).toNat = 1 := by
    rw [BitVec.toNat_ofNat]
    exact mod_eq_of_lt (Nat.one_lt_two_pow (by have wide := g.wide; omega))
  rw [hashSetIdx_eq key _ g.narrow.le g.positive, Ne, constructKey_eq_iff, one, one_mul,
    mod_eq_of_lt range,
    div_eq_of_lt small, zero_mul]
  exact g.positive.ne'

theorem constructKey_zero (small : key.toNat < g.cfg.numSets) :
    constructKey 0#w (hashSetIdx key g.cfg.numSets) g.cfg.numSets = key := by
  rw [hashSetIdx_eq key _ g.narrow.le g.positive, constructKey_eq_iff, div_eq_of_lt small]
  simp

theorem wayOfMask_hit (small : key.toNat < g.cfg.numSets) :
    wayOfMask g.cfg g.table (fun _ => 0#w) key = some 0 := by
  have found := constructKey_zero small
  simp only [wayOfMask, searchWays, wrap32_of_lt g.narrow, found, beq_self_eq_true]
  rfl

theorem wayOfMask_miss (small : key.toNat < g.cfg.numSets) :
    wayOfMask g.cfg g.table (fun _ => 1#w) key = none := by
  have absent := constructKey_one small
  simp only [wayOfMask, searchWays, wrap32_of_lt g.narrow]
  rw [find?_eq_none]
  intro way _
  simpa using absent

theorem zero_small : (0#w).toNat < g.cfg.numSets := by
  rw [BitVec.toNat_ofNat, Nat.zero_mod]
  exact g.positive

theorem repeated_hit {i : Nat} (range : i < g.len) :
    (repeated g (fun _ => 0#w) (fun _ => 0) 0#w).resident i = true ∧
      ((repeated g (fun _ => 0#w) (fun _ => 0) 0#w).freshPointer i).isSome = true := by
  have hit : (repeated g (fun _ => 0#w) (fun _ => 0) 0#w).resident i = true := by
    rw [Contents.resident, repeated_key range]
    exact Option.isSome_of_eq_some (wayOfMask_hit zero_small)
  refine ⟨hit, ?_⟩
  rw [Contents.freshPointer_isSome, hit]
  simp [range, Contents.preset, repeated]

variable (agree : ∀ contents : Contents g, contents.Agree)

include agree

theorem length_of_agree : g.len ≤ 2 ^ 32 := by
  by_contra long
  let contents := repeated g (fun _ => 0#w) (fun _ => 0) 0#w
  obtain ⟨fuel, returns⟩ := (agree contents).returns
  obtain ⟨out, returned⟩ := Option.isSome_iff_exists.mp (returns ⟨inOrder, inOrder, inOrder⟩).1
  -- no warp has a word for the keys from `2 ^ 32` on
  have bit := (agree contents).mask fuel _ out returned (2 ^ 27) 0 (by decide)
  have behind : 2 ^ 27 * 32 + 0 < g.len := by omega
  rw [(repeated_hit behind).1, decide_eq_true behind, Bool.and_true, Bool.or_true] at bit
  rw [lookupHitMask, if_neg (by omega)] at returned
  obtain ⟨values, _, rfl⟩ := Option.map_eq_some_iff.mp returned
  obtain set | ⟨word, member, same, _⟩ := (getLsbD_joined _ _ _ _).mp bit
  · simp [contents, repeated] at set
  · obtain ⟨n, _, chosen⟩ := mem_filterMap.mp member
    simp only at chosen
    split at chosen
    · cases chosen
      have small : Contents.hitMaskSubwarpPtr (callCacheQueryHitMask g.rowSize) n < 2 ^ 32 :=
        mod_lt _ (by decide)
      simp only at same
      omega
    · cases chosen

variable (some_keys : 0 < g.len)

include some_keys

theorem room_of_agree : g.Room := by
  have short := length_of_agree agree
  by_contra tight
  let contents := repeated g (fun _ => 0#w) (fun _ => 0) 0#w
  have suits := wholeWarp_suits g.rowSize
  obtain ⟨fuel, returns⟩ := (agree contents).returns
  have returned := (returns ⟨inOrder, inOrder, inOrder⟩).1
  rw [lookupHitMask, if_neg some_keys.ne', Option.isSome_map, launch,
    if_pos (launchable short some_keys),
    callCacheQueryHitMask, contents.queryHitMask_grid short fuel] at returned
  -- the first thread never leaves its loop
  have stuck : gridCopies (2 ^ 32) g.rowSize (wholeWarp g.rowSize).elementSize
      (wholeWarp g.rowSize).subwarpWidth fuel
      g.threads contents.freshPointer = none := by
    rw [← Option.not_isSome_iff_eq_none, gridCopies, gather_isSome_iff]
    intro all
    have first := all 0 (mem_range.mpr (lt_of_lt_of_le some_keys (len_le_threads short)))
    simp only [Nat.zero_div, zero_mul, Nat.zero_add] at first
    rw [laneCopies_eq_none suits.room (by rw [wholeWarp_width]; exact Nat.lt_of_not_le tight)
      (by decide) _ _
      suits.lanes (repeated_hit some_keys).2] at first
    cases first
  rw [stuck] at returned
  cases returned

variable (some_bytes : 0 < g.rowSize)

include some_bytes

theorem alignment_of_agree : (wholeWarp g.rowSize).elementSize ∣ g.dValues ∧
    (g.len = 1 ∨ (wholeWarp g.rowSize).elementSize ∣ g.stride) := by
  have short := length_of_agree agree
  have room := room_of_agree agree some_keys
  obtain ⟨fuel, returns⟩ := (agree (repeated g (fun _ => 0#w) (fun _ => 0) 0#w)).returns
  have returned := (returns ⟨inOrder, inOrder, inOrder⟩).1
  rw [lookupHitMask, if_neg some_keys.ne', Option.isSome_map] at returned
  have rows : ∀ i < g.len, (wholeWarp g.rowSize).elementSize ∣ g.dValues + i * g.stride := by
    intro i range
    obtain ⟨source, shown⟩ := Option.isSome_iff_exists.mp (repeated_hit range).2
    exact (launch_aligned (wholeWarp_suits g.rowSize) short room.wholeWarp
      (Contents.queryHitMask_grid _ short fuel) returned
      some_bytes range shown).2
  have first : (wholeWarp g.rowSize).elementSize ∣ g.dValues := by simpa using rows 0 some_keys
  refine ⟨first, ?_⟩
  rcases Nat.lt_or_ge 1 g.len with second | single
  · right
    have next := rows 1 second
    rw [one_mul] at next
    exact (Nat.dvd_add_right first).mp next
  · exact .inl (by omega)

theorem table_of_agree : (wholeWarp g.rowSize).elementSize ∣ g.dTable := by
  have short := length_of_agree agree
  have room := room_of_agree agree some_keys
  let contents := repeated g (fun _ => 1#w) (fun _ => 0) 0#w
  obtain ⟨fuel, returns⟩ := (agree contents).returns
  have returned := (returns ⟨inOrder, inOrder, inOrder⟩).2.2
  have shown : contents.uvmPointer 0 = some (contents.uvmSource 0#w) := by
    have key : contents.key 0 = 0#w := repeated_key some_keys
    have absent : getAddress g.cfg g.table contents.tags 0#w = none := by
      simp only [getAddress, contents, repeated, wayOfMask_miss zero_small, Option.map_none]
    rw [Contents.uvmPointer, if_neg (by omega), key, absent]
    exact if_neg g.mapped
  rw [lookupUvm, if_neg some_keys.ne', Option.isSome_map] at returned
  have aligned :=
    (launch_aligned (wholeWarp_suits g.rowSize) short room.wholeWarp
      (contents.queryUvm_grid short fuel) returned
    some_bytes some_keys shown).1
  have address : (contents.uvmSource 0#w).address = g.dTable := by simp [Contents.uvmSource]
  rw [address] at aligned
  exact Int.natCast_dvd_natCast.mp aligned

/-- The first table with a slot from `2 ^ 32` on has its last row read from the wrong place. -/
theorem slots_of_agree : (g.table + 1) * g.cfg.numSets * numWays ≤ 2 ^ 32 := by
  have short := length_of_agree agree
  have room := room_of_agree agree some_keys
  have positive := g.positive
  by_contra far
  -- the last slot of the table holds the last key below the number of sets
  let last := g.table * g.cfg.numSets * numWays + (g.cfg.numSets - 1) * numWays + 7
  let key := BitVec.ofNat w (g.cfg.numSets - 1)
  let tags : Tags w := fun slot => if slot = last then 0#w else 1#w
  let rows : Memory := fun a => if a = last * g.rowSize then 1 else 0
  let contents := repeated g tags rows key
  have value : key.toNat = g.cfg.numSets - 1 := by
    rw [BitVec.toNat_ofNat]
    have range : g.cfg.numSets < 2 ^ w :=
      lt_of_lt_of_le g.narrow (Nat.pow_le_pow_right (by decide) g.wide)
    exact mod_eq_of_lt (by omega)
  have small : key.toNat < g.cfg.numSets := by omega
  have hash : hashSetIdx key g.cfg.numSets = g.cfg.numSets - 1 := by
    rw [hashSetIdx_eq key _ g.narrow.le positive, value, mod_eq_of_lt (by omega)]
  have beyond : 2 ^ 32 ≤ last := by
    rw [add_mul, add_mul, one_mul] at far
    simp only [last, numWays] at far ⊢
    omega
  have found : wayOfMask g.cfg g.table tags key = some 7 := by
    have only : ∀ j,
        (constructKey (tags (g.table * g.cfg.numSets * numWays + (g.cfg.numSets - 1) * numWays + j))
        (g.cfg.numSets - 1) g.cfg.numSets == key) = (j == 7) := by
      intro j
      by_cases here : j = 7
      · have zero := constructKey_zero small
        rw [hash] at zero
        simp only [tags, last, here, if_true, zero, beq_self_eq_true]
      · have one := constructKey_one small
        rw [hash] at one
        have other : ¬ g.table * g.cfg.numSets * numWays +
            (g.cfg.numSets - 1) * numWays + j = last := by
          simp only [last]
          omega
        simp only [tags, if_neg other, beq_eq_false_iff_ne.mpr one, beq_eq_false_iff_ne.mpr here]
    simp only [wayOfMask, searchWays, wrap32_of_lt g.narrow, hash, only]
    rfl
  have address : getAddress g.cfg g.table tags key = some (last * g.rowSize) := by
    simp only [getAddress, found, wrap32_of_lt g.narrow, hash, Option.map_some, last]
  have query : queryAddress g.cfg g.table tags key = some (wrap32 last * g.rowSize) := by
    simp only [queryAddress, found, wrap32_of_lt g.narrow, hash, Option.map_some, last]
  obtain ⟨fuel, returns⟩ := (agree contents).returns
  obtain ⟨out, returned⟩ := Option.isSome_iff_exists.mp (returns ⟨inOrder, inOrder, inOrder⟩).2.1
  have same : contents.key 0 = key := repeated_key some_keys
  have meant :=
    ((agree contents).listed fuel _ out returned).found 0 some_keys
      (fun o => rows (last * g.rowSize + o))
    (by rw [Contents.cacheRow, same]; simp only [contents, repeated, address, Option.map_some])
      0 some_bytes
  have copied := (lookupMissing_delivers short room returned).found 0 some_keys
    (fun o => rows (wrap32 last * g.rowSize + o))
    (by
      rw [Contents.queryPointer, if_neg (by omega), same]
      simp only [contents, repeated, query, Option.map_some]
      rfl) 0 some_bytes
  have wrong : wrap32 last * g.rowSize ≠ last * g.rowSize := by
    have wrapped : wrap32 last < 2 ^ 32 := mod_lt _ (by decide)
    intro equal
    have equal := Nat.eq_of_mul_eq_mul_right some_bytes equal
    omega
  rw [meant] at copied
  simp only [rows, Nat.add_zero, if_neg wrong] at copied
  simp at copied

end Necessary

/-- The three lookups agree on every content of the cache and the buffers exactly when the sizes
fit. -/
theorem lookup_flavours_agree_iff (g : Geometry w C) :
    (∀ contents : Contents g, contents.Agree) ↔ g.len = 0 ∨ g.Fits := by
  constructor
  · intro agree
    rcases Nat.eq_zero_or_pos g.len with empty | some_keys
    · exact .inl empty
    · refine .inr ⟨length_of_agree agree, ?_⟩
      rcases Nat.eq_zero_or_pos g.rowSize with nothing | some_bytes
      · exact .inl nothing
      · obtain ⟨values, stride⟩ := alignment_of_agree agree some_keys some_bytes
        exact .inr ⟨slots_of_agree agree some_keys some_bytes, room_of_agree agree some_keys,
          values, stride,
          table_of_agree agree some_keys some_bytes⟩
  · intro sizes contents
    rcases Nat.eq_zero_or_pos g.len with empty | some_keys
    · exact agree_of_empty contents empty
    · rcases sizes with empty | fits
      · omega
      · exact agree_of_fits contents fits some_keys

/-- Two tables of `2 ^ 29` sets with rows of one byte; the lookup is in the second one. -/
def secondTable : Geometry 64 Unit where
  cfg := ⟨2 ^ 29, 2, 1, (), -1⟩
  table := 1
  stride := 1
  len := 1
  dValues := 0
  dTable := 256
  signedKeys := true
  wide := by decide
  positive := by decide
  narrow := by decide
  spaced := by decide
  mapped := by decide

/-- Key `0` is resident in both tables, with row `1` in the first and row `2` in the second. -/
def bothTables : Contents secondTable where
  tags := fun slot => if slot = 0 ∨ slot = 2 ^ 32 then 0 else -1
  rows := fun a => if a = 0 then 1 else if a = 2 ^ 32 then 2 else 0
  uvm := fun _ => 0
  keys := [0]
  counted := rfl
  values := fun _ => 0
  hitMask := fun _ => 0
  countMisses := true
  misses := 0

/-- The lookups with a hit mask and with a missing list return the row of the first table. -/
theorem second_table_reads_first :
    (lookupHitMask bothTables 2 ⟨inOrder, inOrder, inOrder⟩).map (fun out => out.values 0) =
      some 1 ∧
      (lookupMissing bothTables 2 ⟨inOrder, inOrder, inOrder⟩).map (fun out => out.values 0) =
        some 1 ∧
        (lookupUvm bothTables 2 ⟨inOrder, inOrder, inOrder⟩).map (fun out => out.values 0) =
          some 2 := by
  decide +kernel

end EmbedCache.LookupKernels
