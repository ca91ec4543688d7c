import EmbedCache.AbsentMask

/-! How the keys of a `find` are divided among tasks.

In the string mode of `RedisClusterTable`, `task_range` cuts the keys into stretches of whole mask
words, and so does the gather of `LinearHostTable`; in the partitioned mode every partition goes
through all words, from a word of its own on and around the end. -/

namespace EmbedCache.AbsentMask

open Lib Bitmask List
open List (range)
open STLContainerTable (FindRequest FindBuffers)

variable {Key : Type*} {b n parts t u q : Nat}

/-- Keys of a task before the end is reached. -/
def chunk (b n parts : Nat) : Nat := maskSize b ((n + parts - 1) / parts) * b

theorem taskRange_eq (b n parts t : Nat) : taskRange b n parts t =
    (min (t * chunk b n parts) n, min (min (t * chunk b n parts) n + chunk b n parts) n) := rfl

def InRange (b n parts t q : Nat) : Prop :=
  (taskRange b n parts t).1 ≤ q ∧ q < (taskRange b n parts t).2

theorem le_maskSize_mul (wide : 0 < b) (n : Nat) : n ≤ maskSize b n * b := by
  have division := Nat.div_add_mod' (n + b - 1) b
  have rest := Nat.mod_lt (n + b - 1) wide
  rw [maskSize]
  omega

theorem le_parts_mul_chunk (wide : 0 < b) (n : Nat) (some_parts : 0 < parts) :
    n ≤ parts * chunk b n parts := by
  have share : n ≤ parts * maskSize parts n := Nat.mul_comm _ _ ▸ le_maskSize_mul some_parts n
  exact share.trans (Nat.mul_le_mul_left _ (le_maskSize_mul wide _))

theorem inRange_iff (wide : 0 < b) (some_parts : 0 < parts) :
    InRange b n parts t q ↔ q < n ∧ q / chunk b n parts = t := by
  have enough := le_parts_mul_chunk wide n some_parts
  rw [InRange, taskRange_eq]
  rcases Nat.eq_zero_or_pos (chunk b n parts) with none | some
  · rw [none] at enough ⊢
    omega
  · rw [Nat.div_eq_iff some]
    omega

theorem inRange_word (wide : 0 < b) (some_parts : 0 < parts) (one : InRange b n parts t q) {r : Nat}
    (other : InRange b n parts u r)
    (same : q / b = r / b) : t = u := by
  rw [inRange_iff wide some_parts] at one other
  have words : chunk b n parts = b * maskSize b ((n + parts - 1) / parts) := Nat.mul_comm _ _
  rw [← one.2, ← other.2, words, ← Nat.div_div_eq_div_mul, same, Nat.div_div_eq_div_mul]

theorem rotated_perm (words shift : Nat) :
    ((range words).map fun t => (t + shift) % words).Perm (range words) := by
  have distinct : ((range words).map fun t => (t + shift) % words).Nodup := by
    apply Nodup.map_on _ nodup_range
    intro i first j second same
    have congruent : i ≡ j [MOD words] := Nat.ModEq.add_right_cancel' shift same
    exact congruent.eq_of_lt_of_lt (mem_range.mp first) (mem_range.mp second)
  have inside : ((range words).map fun t => (t + shift) % words) ⊆ range words := by
    intro w member
    obtain ⟨t, bound, rfl⟩ := mem_map.mp member
    exact mem_range.mpr (Nat.mod_lt _ (Nat.zero_lt_of_lt (mem_range.mp bound)))
  exact (distinct.subperm inside).perm_of_length_le (by rw [length_map])

/-- The ranges of the string mode are disjoint and together all keys; those with keys start at a
word, and no word is in two of them. Each partition of the partitioned mode visits every word
once. -/
theorem redis_ranges_tile (wide : 0 < b) (n parts : Nat) (some_parts : 0 < parts) :
    (∀ q, q < n ↔ ∃ t < parts, InRange b n parts t q) ∧
    (∀ t u q, InRange b n parts t q → InRange b n parts u q → t = u) ∧
    (∀ t, (∃ q, InRange b n parts t q) → b ∣ (taskRange b n parts t).1) ∧
    (∀ t u q r, InRange b n parts t q → InRange b n parts u r → q / b = r / b → t = u) ∧
    ∀ (positive : 0 < parts) (home : Key → Nat),
      ∀ task ∈ redisTasks b n (.partitioned parts positive home),
      task.words.Perm (range (maskSize b n)) := by
  refine ⟨fun q => ⟨fun inside => ?_, ?_⟩,
    fun t u q one other => inRange_word wide some_parts one other rfl, ?_,
    fun t u q r one other same => inRange_word wide some_parts one other same, ?_⟩
  · refine ⟨q / chunk b n parts, ?_, (inRange_iff wide some_parts).mpr ⟨inside, rfl⟩⟩
    have enough := inside.trans_le (le_parts_mul_chunk wide n some_parts)
    exact Nat.div_lt_of_lt_mul (Nat.mul_comm _ _ ▸ enough)
  · rintro ⟨t, _, member⟩
    exact ((inRange_iff wide some_parts).mp member).1
  · rintro t ⟨q, member⟩
    have start : (taskRange b n parts t).1 = t * chunk b n parts := by
      rw [InRange, taskRange_eq] at member
      rw [taskRange_eq]
      exact min_eq_left (by omega)
    rw [start]
    exact Dvd.dvd.mul_left (Nat.dvd_mul_left _ _) _
  · intro positive home task member
    obtain ⟨p, _, rfl⟩ := mem_map.mp member
    exact rotated_perm _ _

/-- Three tasks for a hundred keys and words of 64 bits. -/
theorem redis_ranges_tile_hundred : InRange 64 100 3 1 99 ∧ ∃ t < 3, InRange 64 100 3 t 99 := by
  have tile := @redis_ranges_tile Nat 64 (by decide) 100 3 (by decide)
  exact ⟨by unfold InRange; decide, (tile.1 99).mp (by decide)⟩

/-- The third of them has no keys, and its range starts inside a word. -/
theorem empty_range_unaligned : taskRange 64 100 3 2 = (100, 100) ∧
    ¬ 64 ∣ (taskRange 64 100 3 2).1 := by
  decide

/-! ### The gather of the linear table -/

namespace Linear

variable (linear : Linear Key) (present : Bool) (request : FindRequest Key)
  (hitMask : Nat → BitVec b)

def missing (q : Nat) : Bool := !(present && (hitMask (q / b)).getLsbD (q % b))

def rowCopy (q : Nat) : Write UInt8 :=
  ⟨q * request.valueStride, linear.rowSize, fun a =>
    linear.table (linear.index (request.keys q) * linear.rowSize + a)⟩

def taskKeys (b idx : Nat) : List Nat :=
  (range (linear.keysPerTask request b)).map fun i => idx * linear.keysPerTask request b + i

/-- The keys that the tasks copy, in the order of the copies. -/
def copied (order : List Nat) : List Nat :=
  (order.flatMap (linear.taskKeys request b)).filter fun q =>
    decide (q < request.n) && missing present hitMask q

theorem gatherKey_eq (wide : 0 < b) (idx i : Nat) (values : Nat → UInt8) :
    linear.gatherKey present request hitMask idx values i =
      let q := idx * linear.keysPerTask request b + i
      if decide (q < request.n) && missing present hitMask q then
        applyWrites values [linear.rowCopy request q]
        else values := by
  -- a task starts at a word
  have words : idx * linear.keysPerTask request b =
      b * (idx * maskSize b ((request.n + linear.numThreads - 1) / linear.numThreads)) := by
    rw [keysPerTask]
    ring
  have word : (idx * linear.keysPerTask request b + i) / b =
      idx * linear.keysPerTask request b / b + i / b := by
    rw [words, Nat.mul_add_div wide, Nat.mul_div_cancel_left _ wide]
  have bit : (idx * linear.keysPerTask request b + i) % b = i % b := by
    rw [words, Nat.mul_add_mod]
  simp only [gatherKey, missing, word, bit]
  by_cases inside : idx * linear.keysPerTask request b + i < request.n
  · rw [if_neg (not_le.mpr inside)]
    cases present && (hitMask (idx * linear.keysPerTask request b / b + i / b)).getLsbD
      (i % b) <;> simp [inside, rowCopy]
  · rw [if_pos (not_lt.mp inside)]
    simp [inside]

theorem gather_eq (wide : 0 < b) (order : List Nat) (values : Nat → UInt8) :
    order.foldl (linear.gatherTask present request hitMask) values =
      applyWrites values
        ((linear.copied present request hitMask order).map (linear.rowCopy request)) := by
  have task : linear.gatherTask present request hitMask = fun values idx =>
      (linear.taskKeys request b idx).foldl
      (fun values q => if decide (q < request.n) && missing present hitMask q then
        applyWrites values [linear.rowCopy request q]
        else values) values := by
    funext values idx
    rw [gatherTask, taskKeys, foldl_map]
    congr 1
    funext values i
    exact linear.gatherKey_eq present request hitMask wide idx i values
  rw [task, applyWrites, foldl_map, copied, foldl_filter, foldl_flatMap]
  rfl

theorem taskKeys_range (threads : Nat) :
    (range threads).flatMap (linear.taskKeys request b) =
      range (threads * linear.keysPerTask request b) := by
  induction threads with
  | zero => rw [Nat.zero_mul]; rfl
  | succ threads ih =>
    rw [range_succ, flatMap_append, ih, flatMap_singleton, Nat.succ_mul, range_add, taskKeys]

variable {order : List Nat} (all : order.Perm (range linear.numThreads))

include all

theorem copied_nodup : (linear.copied present request hitMask order).Nodup := by
  have keys := all.flatMap_right (linear.taskKeys request b)
  rw [taskKeys_range] at keys
  exact (keys.nodup_iff.mpr nodup_range).filter _

theorem mem_copied (wide : 0 < b) (q : Nat) :
    q ∈ linear.copied present request hitMask order ↔ q < request.n ∧
      missing present hitMask q = true := by
  have keys := all.flatMap_right (linear.taskKeys request b)
  rw [taskKeys_range] at keys
  have enough : request.n ≤ linear.numThreads * linear.keysPerTask request b :=
    le_parts_mul_chunk wide request.n linear.numThreads_pos
  rw [copied, mem_filter, keys.mem_iff, mem_range, Bool.and_eq_true, decide_eq_true_iff]
  exact ⟨fun both => both.2, fun both => ⟨both.1.trans_le enough, both⟩⟩

omit all in
theorem fillMask_getLsbD (wide : 0 < b) {w j : Nat} (inside : w < maskSize b request.n)
    (bit : j < b) :
    (fillMask true request hitMask w).getLsbD j = decide (w * b + j < request.n) := by
  have start := word_start_lt wide inside
  have division := Nat.div_add_mod' request.n b
  have rest := Nat.mod_lt request.n wide
  simp only [fillMask, if_true]
  by_cases full : w < request.n / b
  · have whole : (w + 1) * b ≤ request.n / b * b := Nat.mul_le_mul_right b full
    rw [Nat.succ_mul] at whole
    rw [if_pos full, BitVec.getLsbD_allOnes, decide_eq_true bit,
      decide_eq_true (by omega : w * b + j < request.n)]
  · have last : w = request.n / b :=
      Nat.le_antisymm ((Nat.le_div_iff_mul_le wide).mpr start.le) (not_lt.mp full)
    rw [if_neg full, if_pos ⟨last, by rw [last] at start; omega⟩, BitVec.getLsbD_ofNat,
      Nat.testBit_two_pow_sub_one,
      decide_eq_true bit, Bool.true_and, last]
    congr 1
    exact propext ⟨fun _ => by omega, fun _ => by omega⟩

omit all in
theorem fillMask_beyond {w : Nat} (wide : 0 < b) (beyond : maskSize b request.n ≤ w) :
    fillMask present request hitMask w = hitMask w := by
  have words := le_maskSize_mul wide request.n
  have least : request.n ≤ w * b := words.trans (Nat.mul_le_mul_right b beyond)
  have division := Nat.div_add_mod' request.n b
  have full : ¬ w < request.n / b := not_lt.mpr (Nat.div_le_of_le_mul (Nat.mul_comm _ _ ▸ least))
  simp only [fillMask, if_neg full]
  split
  · rw [if_neg]
    rintro ⟨rfl, rest⟩
    omega
  · rfl

omit all in
/-- The rows of missing keys stand in the values, however the copies were ordered; nothing is
written between them. -/
theorem gathered {positions : List Nat}
    (member : ∀ q, q ∈ positions ↔ q < request.n ∧ missing present hitMask q = true)
    (values : Nat → UInt8) :
    (linear.rowSize ≤ request.valueStride → ∀ q < request.n, missing present hitMask q = true →
      readRange (applyWrites values (positions.map (linear.rowCopy request)))
        (q * request.valueStride) linear.rowSize =
        readRange linear.table (linear.index (request.keys q) * linear.rowSize) linear.rowSize) ∧
    ∀ a, (∀ q < request.n, missing present hitMask q = true →
        a < q * request.valueStride ∨ q * request.valueStride + linear.rowSize ≤ a) →
      applyWrites values (positions.map (linear.rowCopy request)) a = values a := by
  constructor
  · intro spaced q listed wanted
    apply readRange_congr
    intro offset inside
    -- what the copy of this key would put there, and the others stay off it
    apply (applyWrites_target values (fun a =>
      linear.table (linear.index (request.keys q) * linear.rowSize +
      (a - q * request.valueStride))) _ _ ?_ ?_).trans
    · rw [Nat.add_sub_cancel_left]
    · intro write copy covers
      obtain ⟨r, _, rfl⟩ := mem_map.mp copy
      have same : r = q := by
        have low : r * request.valueStride ≤ q * request.valueStride + offset := covers.1
        have high : q * request.valueStride + offset < r * request.valueStride + linear.rowSize :=
          covers.2
        rcases Nat.lt_trichotomy r q with less | same | more
        · have behind := Nat.mul_le_mul_right request.valueStride (Nat.succ_le_of_lt less)
          rw [Nat.succ_mul] at behind
          omega
        · exact same
        · have behind := Nat.mul_le_mul_right request.valueStride (Nat.succ_le_of_lt more)
          rw [Nat.succ_mul] at behind
          omega
      rw [same]
      rfl
    · refine ⟨linear.rowCopy request q, mem_map_of_mem ((member q).mpr ⟨listed, wanted⟩),
        Nat.le_add_right _ _, ?_⟩
      exact Nat.add_lt_add_left inside _
  · intro a outside
    apply applyWrites_untouched
    intro write copy covers
    obtain ⟨q, chosen, rfl⟩ := mem_map.mp copy
    obtain ⟨listed, wanted⟩ := (member q).mp chosen
    have low : q * request.valueStride ≤ a := covers.1
    have high : a < q * request.valueStride + linear.rowSize := covers.2
    rcases outside q listed wanted with before | behind <;> omega

/-- Every missing row is copied once and no other, the bits of all keys are set and no further word
is written. The keys are counted right if and only if none of them was found before. With room for a
row in the stride, the rows are those of the table. -/
theorem linear_gather_iff (wide : 0 < b) (buffers : FindBuffers b) (some_keys : 0 < request.n)
    (given : request.withValues = true) :
    ∃ found count, linear.find present request order buffers = some (found, count) ∧
      (∃ positions : List Nat, positions.Nodup ∧
        (∀ q, q ∈ positions ↔ q < request.n ∧ missing present buffers.hitMask q = true) ∧
        found.values = applyWrites buffers.values (positions.map (linear.rowCopy request))) ∧
      (linear.rowSize ≤ request.valueStride →
        ∀ q < request.n, missing present buffers.hitMask q = true →
        readRange found.values (q * request.valueStride) linear.rowSize =
          readRange linear.table (linear.index (request.keys q) * linear.rowSize) linear.rowSize) ∧
      (∀ a, (∀ q < request.n, missing present buffers.hitMask q = true →
          a < q * request.valueStride ∨ q * request.valueStride + linear.rowSize ≤ a) →
        found.values a = buffers.values a) ∧
      (present = true → ∀ w < maskSize b request.n, ∀ j < b,
        (found.hitMask w).getLsbD j = decide (w * b + j < request.n)) ∧
      (∀ w, maskSize b request.n ≤ w → found.hitMask w = buffers.hitMask w) ∧
      (count = ((range request.n).countP (missing present buffers.hitMask) : Int) ↔
        ∀ q < request.n, missing present buffers.hitMask q = true) := by
  have copies := linear.mem_copied present request buffers.hitMask all wide
  have gathers := linear.gather_eq present request buffers.hitMask wide order buffers.values
  obtain ⟨rows, rest⟩ := linear.gathered present request buffers.hitMask copies buffers.values
  rw [← gathers] at rows rest
  refine ⟨_, _, if_pos ⟨some_keys, given⟩, ?_, rows, rest, ?_,
    fun w beyond => fillMask_beyond present request _ wide beyond, ?_⟩
  · exact ⟨_, linear.copied_nodup present request buffers.hitMask all, copies, gathers⟩
  · rintro rfl w inside j bit
    exact fillMask_getLsbD request buffers.hitMask wide inside bit
  · have counted : (range request.n).countP (missing present buffers.hitMask) =
        (range request.n).length ↔
        ∀ q ∈ range request.n, missing present buffers.hitMask q = true := countP_eq_length
    simp only [length_range, mem_range] at counted
    rw [Nat.cast_inj, eq_comm]
    exact counted

end Linear

def oneByte : Linear Nat := ⟨id, fun a => UInt8.ofNat a, 1, 1, Nat.one_pos⟩

theorem linear_gather_three : ∃ found count, oneByte.find true threeKeys [0] blank =
    some (found, count) ∧ count = 3 ∧
    readRange found.values 2 1 = [20] := by
  have all : [0].Perm (range oneByte.numThreads) := List.Perm.refl _
  obtain ⟨found, count, done, _, rows, _, _, _, counted⟩ :=
    oneByte.linear_gather_iff true threeKeys all (by decide) blank (by decide) rfl
  have missed : ∀ q, Linear.missing true blank.hitMask q = true := by simp [Linear.missing, blank]
  exact ⟨found, count, done, (counted.mpr fun q _ => missed q).trans (by decide),
    rows (le_refl 1) 2 (by decide) (missed 2)⟩

/-- One of three keys was found before; the count is three all the same. -/
theorem linear_counts_found_keys :
    (oneByte.find true threeKeys [0] { blank with hitMask := fun _ => (1 : BitVec 64) }).map
      Prod.snd = some 3 ∧
      (range 3).countP (Linear.missing true fun _ => (1 : BitVec 64)) = 2 :=
  ⟨rfl, by decide⟩

end EmbedCache.AbsentMask
