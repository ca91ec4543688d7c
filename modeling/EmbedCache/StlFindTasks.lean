import EmbedCache.StlFind

/-! What the tasks of `STLContainerTable::find_` have done at any moment.

A position is handled by one step of one task. What is in the mask, the values and the sizes follows
from the positions that are handled and from the words that are joined, whichever task is ahead. -/

namespace EmbedCache.STLContainerTable

open Lib HostTable Bitmask Finset Function

variable {Key : Type*} [DecidableEq Key] {b : Nat}

structure FindState.Fresh (state : FindState Key b) : Prop where
  tasks : state.tasks = fun _ => ⟨.word 0, 0, none⟩
  total : state.totalNumHits = 0
  visits : state.visits = fun _ _ => 0

namespace FindCall

variable (call : FindCall Key) (start : FindState Key b)

abbrev New (q : Nat) : Prop := call.Newly start.hitMask start.parts q

variable (tasks : Nat → TaskState b)

def Handled (q : Nat) : Prop :=
  call.New start q ∧ (tasks (call.owner b q)).phase.Passed (call.turn b q) (q % b)

def Joined (q : Nat) : Prop :=
  call.New start q ∧ (tasks (call.owner b q)).phase.Joined (call.turn b q)

def Copied (q : Nat) : Prop :=
  call.Handled start tasks q ∧ call.request.withValues = true ∧
    ∀ slot, (tasks (call.owner b q)).prev ≠ some (slot, q)

def storedRow (q : Nat) : List UInt8 :=
  ((start.parts (call.home (call.request.keys q))).get call.config (call.request.keys q)).getD []

def newSet (task hmIdx : Nat) : Finset Nat :=
  (Finset.range call.request.n).filter fun q =>
    call.New start q ∧ call.owner b q = task ∧ call.turn b q = hmIdx

def hitsBefore (task hmIdx : Nat) : Int :=
  ∑ i ∈ Finset.range hmIdx, ((call.newSet start task i).card : Int)

/-! ### Values and sizes -/

structure Rows (copied : Nat → Prop) (values : Nat → UInt8) : Prop where
  set : ∀ q, copied q →
    readRange values (q * call.request.valueStride) call.config.maxValueSize =
      call.storedRow start q
  kept : ∀ a, (∀ q, copied q → a < q * call.request.valueStride ∨
    q * call.request.valueStride + call.config.maxValueSize ≤ a) → values a = start.values a

structure Sizes (handled : Nat → Prop) (valueSizes : Nat → Int) : Prop where
  set : ∀ q, handled q → call.request.withValueSizes = true →
    valueSizes q = call.config.maxValueSize
  kept : ∀ q, ¬ handled q ∨ call.request.withValueSizes = false → valueSizes q = start.valueSizes q

variable {call start}

theorem Rows.copy (proper : call.Proper b start.parts) {copied more : Nat → Prop}
    {values : Nat → UInt8}
    (rows : Rows call start copied values) {q : Nat}
    (grows : ∀ other, more other ↔ copied other ∨ other = q)
    {part : Partition Key} {slot : Slot}
    (row : part.row call.config slot = call.storedRow start q) :
    Rows call start more (call.copyRow part slot q values) where
  set other member := by
    by_cases same : other = q
    · subst same
      rw [copyRow, readRange_blit_same, ← row]
      apply readRange_congr
      intro i below
      rw [Nat.zero_add]
    · have earlier := ((grows other).mp member).resolve_right same
      rw [copyRow, readRange_blit_disjoint, rows.set other earlier]
      exact rows_apart proper.spaced same
  kept a outside := by
    rw [copyRow, blit_outside _ _ _ _ _ (outside q ((grows q).mpr (.inr rfl)))]
    exact rows.kept a fun other member => outside other ((grows other).mpr (.inl member))

theorem Rows.congr {copied other : Nat → Prop} {values : Nat → UInt8}
    (rows : Rows call start copied values)
    (same : ∀ q, other q ↔ copied q) : Rows call start other values where
  set q member := rows.set q ((same q).mp member)
  kept a outside := rows.kept a fun q member => outside q ((same q).mpr member)

omit [DecidableEq Key] in
theorem Sizes.write {handled more : Nat → Prop} {valueSizes : Nat → Int}
    (sizes : Sizes call start handled valueSizes)
    {q : Nat} (grows : ∀ other, more other ↔ handled other ∨ other = q) :
    Sizes call start more (if call.request.withValueSizes then
      update valueSizes q call.config.maxValueSize
      else valueSizes) where
  set other member written := by
    rw [if_pos written]
    by_cases same : other = q
    · rw [same, update_self]
    · rw [update_of_ne same]
      exact sizes.set other (((grows other).mp member).resolve_right same) written
  kept other absent := by
    split
    · rename_i written
      have outside : ¬ more other := absent.resolve_right (by rw [written]; decide)
      have elsewhere : other ≠ q := fun same => outside ((grows other).mpr (.inr same))
      rw [update_of_ne elsewhere]
      exact sizes.kept other (.inl fun earlier => outside ((grows other).mpr (.inl earlier)))
    · rename_i unwritten
      exact sizes.kept other (.inr (by simpa using unwritten))

omit [DecidableEq Key] in
theorem Sizes.congr {handled other : Nat → Prop} {valueSizes : Nat → Int}
    (sizes : Sizes call start handled valueSizes)
    (same : ∀ q, other q ↔ handled q) : Sizes call start other valueSizes where
  set q member := sizes.set q ((same q).mp member)
  kept q absent := sizes.kept q (absent.imp_left (mt (same q).mpr))

/-! ### The state of a task -/

variable (call start) in
/-- A task at the bits of a word, of which it saw `loaded`. -/
structure Scanning (tasks : Nat → TaskState b) (task hmIdx : Nat) (it mask loaded : BitVec b) :
    Prop where
  below : hmIdx < call.grid.size task
  initial : ∀ j < b, (start.hitMask (call.grid.word task hmIdx)).getLsbD j = true →
    loaded.getLsbD j = true
  known : ∀ j < b, loaded.getLsbD j = true →
    (start.hitMask (call.grid.word task hmIdx)).getLsbD j = true ∨
      call.Joined start tasks (call.grid.word task hmIdx * b + j)
  todo : ∀ j < b, it.getLsbD j = true →
    call.grid.word task hmIdx * b + j < call.request.n ∧ loaded.getLsbD j = false
  marked : ∀ j < b, mask.getLsbD j = true ↔ loaded.getLsbD j = true ∨
    (call.grid.word task hmIdx * b + j ∈ call.newSet start task hmIdx ∧ it.getLsbD j = false)
  hits : (tasks task).numHits = call.hitsBefore start task hmIdx - count loaded

variable (call start) in
def Working (tasks : Nat → TaskState b) (task : Nat) : Prop :=
  match (tasks task).phase with
  | .word hmIdx => hmIdx ≤ call.grid.size task ∧
    (tasks task).numHits = call.hitsBefore start task hmIdx
  | .bits hmIdx it mask => ∃ loaded, call.Scanning start tasks task hmIdx it mask loaded
  | .done => (tasks task).prev = none

variable {tasks later : Nat → TaskState b}

theorem Working.mono {task : Nat} (working : call.Working start tasks task)
    (same : later task = tasks task)
    (joins : ∀ q, call.Joined start tasks q → call.Joined start later q) :
    call.Working start later task := by
  rw [Working] at working ⊢
  rw [same]
  split
  · rename_i hmIdx phase
    rw [phase] at working
    exact working
  · rename_i hmIdx it mask phase
    rw [phase] at working
    obtain ⟨loaded, scanning⟩ := working
    exact ⟨loaded, scanning.below, scanning.initial,
      fun j inside bit => (scanning.known j inside bit).imp_right (joins _), scanning.todo,
        scanning.marked,
      by rw [same]; exact scanning.hits⟩
  · rename_i phase
    rw [phase] at working
    exact working

theorem handled_congr {tasks : Nat → TaskState b} {task : Nat} {new : TaskState b}
    (same : ∀ q, call.New start q → call.owner b q = task →
      (new.phase.Passed (call.turn b q) (q % b) ↔
        (tasks task).phase.Passed (call.turn b q) (q % b))) (q : Nat) :
    call.Handled start (update tasks task new) q ↔ call.Handled start tasks q := by
  rw [Handled, Handled]
  apply and_congr_right
  intro new
  by_cases own : call.owner b q = task
  · rw [own, update_self]
    exact same q new own
  · rw [update_of_ne own]

theorem joined_congr {tasks : Nat → TaskState b} {task : Nat} {new : TaskState b}
    (same : ∀ q, call.New start q → call.owner b q = task →
      (new.phase.Joined (call.turn b q) ↔ (tasks task).phase.Joined (call.turn b q))) (q : Nat) :
    call.Joined start (update tasks task new) q ↔ call.Joined start tasks q := by
  rw [Joined, Joined]
  apply and_congr_right
  intro new
  by_cases own : call.owner b q = task
  · rw [own, update_self]
    exact same q new own
  · rw [update_of_ne own]

section Words

variable (proper : call.Proper b start.parts)

include proper

theorem mem_newSet {task hmIdx q : Nat} (inside : task < call.grid.numTasks)
    (below : hmIdx < call.grid.size task) :
    q ∈ call.newSet start task hmIdx ↔
      call.New start q ∧ call.home (call.request.keys q) = call.grid.part task ∧
        q / b = call.grid.word task hmIdx := by
  rw [newSet, mem_filter, mem_range]
  constructor
  · rintro ⟨listed, new, own⟩
    exact ⟨new, (owner_turn_iff proper inside below listed).mp own⟩
  · rintro ⟨new, own⟩
    exact ⟨new.1, new, (owner_turn_iff proper inside below new.1).mpr own⟩

theorem card_newSet {task hmIdx : Nat} (inside : task < call.grid.numTasks)
    (below : hmIdx < call.grid.size task) :
    ((Finset.range b).filter fun j =>
      call.grid.word task hmIdx * b + j ∈ call.newSet start task hmIdx).card =
      (call.newSet start task hmIdx).card := by
  apply card_bij fun j _ => call.grid.word task hmIdx * b + j
  · intro j member
    exact (mem_filter.mp member).2
  · intro j _ i _ same
    omega
  · intro q member
    have word := ((mem_newSet proper inside below).mp member).2.2
    have rest := Nat.mod_lt q proper.wide
    have sum : call.grid.word task hmIdx * b + q % b = q := by
      rw [← word, Nat.mul_comm]
      exact Nat.div_add_mod q b
    refine ⟨q % b, mem_filter.mpr ⟨mem_range.mpr rest, ?_⟩, sum⟩
    rw [sum]
    exact member

theorem Scanning.count {tasks : Nat → TaskState b} {task hmIdx : Nat} {it mask loaded : BitVec b}
    (scanning : call.Scanning start tasks task hmIdx it mask loaded)
    (inside : task < call.grid.numTasks)
    (fresh : ∀ j < b, call.grid.word task hmIdx * b + j ∈ call.newSet start task hmIdx →
      loaded.getLsbD j = false)
    (last : hasNext it = false) :
      Bitmask.count mask = Bitmask.count loaded + (call.newSet start task hmIdx).card := by
  rw [count_eq_card, count_eq_card, ← card_newSet proper inside scanning.below,
    ← card_union_of_disjoint]
  · congr 1
    ext j
    simp only [mem_union, mem_filter, mem_range]
    constructor
    · rintro ⟨below, bit⟩
      rcases (scanning.marked j below).mp bit with old | ⟨new, -⟩
      · exact .inl ⟨below, old⟩
      · exact .inr ⟨below, new⟩
    · rintro (⟨below, old⟩ | ⟨below, new⟩)
      · exact ⟨below, (scanning.marked j below).mpr (.inl old)⟩
      · exact ⟨below, (scanning.marked j below).mpr (.inr ⟨new, getLsbD_of_not_hasNext last j⟩)⟩
  · rw [disjoint_left]
    intro j old new
    obtain ⟨below, bit⟩ := mem_filter.mp old
    have unset := fresh j (mem_range.mp below) (mem_filter.mp new).2
    rw [bit] at unset
    exact Bool.noConfusion unset

end Words

end FindCall

end EmbedCache.STLContainerTable
