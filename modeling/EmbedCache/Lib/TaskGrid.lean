import Mathlib.Tactic

/-! Tasks that go through the words of a range once for every part.

Every part has its own tasks, each with a stretch of at most `taskLimit` words. The
words of part `p` are counted from `shift p` on, around the end of the range. -/

namespace EmbedCache.Lib

open Nat

structure TaskGrid where
  parts : Nat
  words : Nat
  taskLimit : Nat
  shift : Nat → Nat
  words_pos : 0 < words
  taskLimit_pos : 0 < taskLimit
  shift_lt : ∀ p < parts, shift p < words

namespace TaskGrid

variable (grid : TaskGrid)

def tasksPerPart : Nat := (grid.words + grid.taskLimit - 1) / grid.taskLimit

def numTasks : Nat := grid.parts * grid.tasksPerPart

variable (task : Nat)

def part : Nat := task / grid.tasksPerPart

def start : Nat := grid.taskLimit * (task % grid.tasksPerPart)

def size : Nat := min grid.taskLimit (grid.words - grid.start task)

def word (task idx : Nat) : Nat :=
  (grid.start task + grid.shift (grid.part task) + idx) % grid.words

variable (p w : Nat)

def place : Nat := (w + (grid.words - grid.shift p)) % grid.words

def taskOf : Nat := p * grid.tasksPerPart + grid.place p w / grid.taskLimit

def idxOf : Nat := grid.place p w % grid.taskLimit

variable {grid}

theorem div_lt_tasksPerPart {n : Nat} (inside : n < grid.words) :
    n / grid.taskLimit < grid.tasksPerPart := by
  have positive := grid.taskLimit_pos
  rw [tasksPerPart, Nat.div_lt_iff_lt_mul positive]
  have division := Nat.div_add_mod (grid.words + grid.taskLimit - 1) grid.taskLimit
  have rest := mod_lt (grid.words + grid.taskLimit - 1) positive
  rw [mul_comm grid.taskLimit] at division
  omega

theorem tasksPerPart_pos : 0 < grid.tasksPerPart :=
  Nat.lt_of_le_of_lt (Nat.zero_le _) (div_lt_tasksPerPart grid.words_pos)

theorem place_lt : grid.place p w < grid.words := mod_lt _ grid.words_pos

theorem part_lt {task : Nat} (inside : task < grid.numTasks) : grid.part task < grid.parts :=
  Nat.div_lt_of_lt_mul (by rw [mul_comm]; exact inside)

theorem size_pos : 0 < grid.size task := by
  have limit := grid.taskLimit_pos
  have last := mod_lt task (@tasksPerPart_pos grid)
  have total : grid.taskLimit * grid.tasksPerPart ≤ grid.words + grid.taskLimit - 1 := by
    rw [tasksPerPart]
    exact Nat.mul_div_le _ _
  have behind : grid.taskLimit * (task % grid.tasksPerPart) + grid.taskLimit ≤ grid.taskLimit *
      grid.tasksPerPart := by
    rw [← Nat.mul_succ]
    exact Nat.mul_le_mul_left _ last
  rw [size, start]
  omega

section Responsible

variable {p w : Nat}

theorem taskOf_part : grid.part (grid.taskOf p w) = p := by
  rw [part, taskOf, mul_comm, Nat.mul_add_div tasksPerPart_pos,
    Nat.div_eq_of_lt (div_lt_tasksPerPart (place_lt p w)), Nat.add_zero]

theorem taskOf_mod : grid.taskOf p w % grid.tasksPerPart = grid.place p w / grid.taskLimit := by
  rw [taskOf, mul_comm, Nat.mul_add_mod, mod_eq_of_lt (div_lt_tasksPerPart (place_lt p w))]

theorem taskOf_lt (inside : p < grid.parts) : grid.taskOf p w < grid.numTasks := by
  have step := div_lt_tasksPerPart (@place_lt grid p w)
  calc grid.taskOf p w < p * grid.tasksPerPart + grid.tasksPerPart := Nat.add_lt_add_left step _
    _ = (p + 1) * grid.tasksPerPart := (Nat.succ_mul _ _).symm
    _ ≤ grid.numTasks := Nat.mul_le_mul_right _ inside

theorem start_add_idxOf : grid.start (grid.taskOf p w) + grid.idxOf p w = grid.place p w := by
  rw [start, taskOf_mod, idxOf]
  exact Nat.div_add_mod _ _

theorem idxOf_lt : grid.idxOf p w < grid.size (grid.taskOf p w) := by
  have sum := @start_add_idxOf grid p w
  have bound := @place_lt grid p w
  have limit : grid.idxOf p w < grid.taskLimit := mod_lt _ grid.taskLimit_pos
  rw [size]
  omega

theorem word_taskOf (partInside : p < grid.parts) (inside : w < grid.words) :
    grid.word (grid.taskOf p w) (grid.idxOf p w) = w := by
  have shifted := grid.shift_lt p partInside
  calc grid.word (grid.taskOf p w) (grid.idxOf p w)
      = (grid.place p w + grid.shift p) % grid.words := by
        rw [word, taskOf_part, Nat.add_right_comm, start_add_idxOf]
    _ = (w + grid.words) % grid.words := by
        rw [place, Nat.mod_add_mod]
        congr 1
        omega
    _ = w := by rw [Nat.add_mod_right, mod_eq_of_lt inside]

end Responsible

section Reached

theorem word_lt (task idx : Nat) : grid.word task idx < grid.words := mod_lt _ grid.words_pos

variable {task idx : Nat} (inside : task < grid.numTasks) (below : idx < grid.size task)

include inside below in
theorem place_word : grid.place (grid.part task) (grid.word task idx) = grid.start task + idx := by
  have shifted := grid.shift_lt _ (part_lt inside)
  have short : grid.start task + idx < grid.words := by
    rw [size] at below
    omega
  rw [place, word, Nat.mod_add_mod]
  have sum : grid.start task + grid.shift (grid.part task) + idx +
      (grid.words - grid.shift (grid.part task)) =
      grid.start task + idx + grid.words := by omega
  rw [sum, Nat.add_mod_right, mod_eq_of_lt short]

include inside below in
theorem taskOf_word : grid.taskOf (grid.part task) (grid.word task idx) = task := by
  have limit : idx < grid.taskLimit := by
    rw [size] at below
    omega
  rw [taskOf, place_word inside below, start, Nat.mul_add_div grid.taskLimit_pos,
    Nat.div_eq_of_lt limit,
    Nat.add_zero, part, mul_comm]
  exact Nat.div_add_mod _ _

include inside below in
theorem idxOf_word : grid.idxOf (grid.part task) (grid.word task idx) = idx := by
  have limit : idx < grid.taskLimit := by
    rw [size] at below
    omega
  rw [idxOf, place_word inside below, start, Nat.mul_add_mod, mod_eq_of_lt limit]

include inside below in
/-- Every part and word has one turn of one task. -/
theorem turn_iff {p w : Nat} (partInside : p < grid.parts) (wordInside : w < grid.words) :
    grid.taskOf p w = task ∧ grid.idxOf p w = idx ↔ p = grid.part task ∧
      w = grid.word task idx := by
  constructor
  · rintro ⟨rfl, rfl⟩
    exact ⟨taskOf_part.symm, (word_taskOf partInside wordInside).symm⟩
  · rintro ⟨rfl, rfl⟩
    exact ⟨taskOf_word inside below, idxOf_word inside below⟩

end Reached

end TaskGrid

end EmbedCache.Lib
