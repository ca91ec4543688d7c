import EmbedCache.Lib.TaskGrid
import EmbedCache.Bitmask
import EmbedCache.StlSlots

/-! `STLContainerTable::find_`: tasks of all partitions go through the words of the hit mask.

A task loads a word, works off the bits that are not set yet and joins the result to the word in
memory. Its steps may come in any order between those of the other tasks. -/

namespace EmbedCache.STLContainerTable

open Lib HostTable Bitmask
open Function (update)

variable {Key : Type*} [DecidableEq Key] {b : Nat}

/-- The arguments of `find`; `values` and `value_sizes` may be absent. -/
structure FindRequest (Key : Type*) where
  n : Nat
  keys : Nat → Key
  valueStride : Nat
  withValues : Bool
  withValueSizes : Bool

inductive Phase (b : Nat)
  | word (hmIdx : Nat)
  | bits (hmIdx : Nat) (it mask : BitVec b)
  | done

/-- The local variables of a task; `prev` is the copy that prefetching puts off. -/
structure TaskState (b : Nat) where
  phase : Phase b
  numHits : Int
  prev : Option (Slot × Nat)

structure FindBuffers (b : Nat) where
  hitMask : Nat → BitVec b
  values : Nat → UInt8
  valueSizes : Nat → Int

structure FindState (Key : Type*) (b : Nat) extends FindBuffers b where
  parts : Nat → Partition Key
  tasks : Nat → TaskState b
  totalNumHits : Int
  /-- How often a word was loaded for a partition. -/
  visits : Nat → Nat → Nat

structure FindCall (Key : Type*) where
  config : STLContainerTableConfig
  home : Key → Nat
  request : FindRequest Key
  lruTime : Nat → BitVec 64
  grid : TaskGrid

namespace FindCall

variable (call : FindCall Key)

def copyRow (part : Partition Key) (slot : Slot) (ij : Nat) (values : Nat → UInt8) : Nat → UInt8 :=
  blit values (ij * call.request.valueStride) call.config.maxValueSize fun i =>
    part.bytes slot.buffer (slot.off + i)

def flush (part : Partition Key) (prev : Option (Slot × Nat)) (values : Nat → UInt8) :
    Nat → UInt8 :=
  match prev with
  | none => values
  | some (slot, ij) => call.copyRow part slot ij values

def deliver (part : Partition Key) (slot : Slot) (ij : Nat) (prev : Option (Slot × Nat))
    (values : Nat → UInt8) :
    (Nat → UInt8) × Option (Slot × Nat) :=
  if call.request.withValues then
    if call.config.prefetchValues then (call.flush part prev values, some (slot, ij))
    else (call.copyRow part slot ij values, prev)
  else (values, prev)

def load (task hmIdx : Nat) (state : FindState Key b) : FindState Key b :=
  let current := state.tasks task
  let hmOff := call.grid.word task hmIdx
  let part := call.grid.part task
  let mask := state.hitMask hmOff
  { state with
    tasks := update state.tasks task
      { current with
        numHits := current.numHits - count mask
        phase := .bits hmIdx (clip (invert mask) (call.request.n - hmOff * b)) mask }
    visits :=
      update state.visits part (update (state.visits part) hmOff (state.visits part hmOff + 1)) }

def handle (task hmIdx : Nat) (it mask : BitVec b) (state : FindState Key b) : FindState Key b :=
  let current := state.tasks task
  let j := next it
  let ij := call.grid.word task hmIdx * b + j
  let key := call.request.keys ij
  let partIdx := call.grid.part task
  let part := state.parts partIdx
  let skipped := { current with phase := .bits hmIdx (skip it) mask }
  if call.home key ≠ partIdx then { state with tasks := update state.tasks task skipped }
  else
    match part.slotMap.lookup key with
    | none => { state with tasks := update state.tasks task skipped }
    | some src =>
      let delivered := call.deliver part src ij current.prev state.values
      { state with
        values := delivered.1
        valueSizes :=
          if call.request.withValueSizes then update state.valueSizes ij call.config.maxValueSize
          else state.valueSizes
        parts := update state.parts partIdx
          (part.setMetadata call.config src
            (call.config.overflowPolicy.handler.touch (call.lruTime task)
              (part.metadata call.config src)))
        tasks := update state.tasks task
          { current with phase := .bits hmIdx (skip it) (set mask j), prev := delivered.2 } }

/-- `mask_type::atomic_join`, then the next word. -/
def joinWord (task hmIdx : Nat) (mask : BitVec b) (state : FindState Key b) : FindState Key b :=
  let current := state.tasks task
  let hmOff := call.grid.word task hmIdx
  { state with
    hitMask := update state.hitMask hmOff (join (state.hitMask hmOff) mask)
    tasks := update state.tasks task
      { current with numHits := current.numHits + count mask, phase := .word (hmIdx + 1) } }

def finish (task : Nat) (state : FindState Key b) : FindState Key b :=
  let current := state.tasks task
  { state with
    values := call.flush (state.parts (call.grid.part task)) current.prev state.values
    totalNumHits := state.totalNumHits + current.numHits
    tasks := update state.tasks task { current with phase := .done, prev := none } }

def step (state : FindState Key b) (task : Nat) : FindState Key b :=
  match (state.tasks task).phase with
  | .word hmIdx => if hmIdx = call.grid.size task then call.finish task state
    else call.load task hmIdx state
  | .bits hmIdx it mask =>
    if hasNext it then call.handle task hmIdx it mask state else call.joinWord task hmIdx mask state
  | .done => state

def run (schedule : List Nat) (state : FindState Key b) : FindState Key b :=
  schedule.foldl call.step state

end FindCall

/-! ### The call -/

def home (config : STLContainerTableConfig) (hash : Key → BitVec 64) (key : Key) : Nat :=
  config.partitioner.part config.numPartitions (hash key)

def numTasksPerPart (config : STLContainerTableConfig) (b n : Nat) : Nat :=
  (maskSize b n + config.maxFindTaskSize - 1) / config.maxFindTaskSize

/-- No sum or product of `find_` leaves the range of `int64_t`. -/
def FitsInt64 (config : STLContainerTableConfig) (b n : Nat) : Prop :=
  n + b - 1 < 2 ^ 63 ∧ maskSize b n + config.maxFindTaskSize - 1 < 2 ^ 63 ∧
    config.numPartitions * numTasksPerPart config b n < 2 ^ 63 ∧
      maskSize b n * (config.numPartitions - 1) < 2 ^ 63

instance (config : STLContainerTableConfig) (b n : Nat) : Decidable (FitsInt64 config b n) :=
  inferInstanceAs (Decidable (_ ∧ _ ∧ _ ∧ _))

def findGrid {config : STLContainerTableConfig} (checked : config.Checked) (wide : 0 < b) {n : Nat}
    (some_keys : 0 < n) :
    TaskGrid where
  parts := config.numPartitions
  words := maskSize b n
  taskLimit := config.maxFindTaskSize
  shift p := maskSize b n * p / config.numPartitions
  words_pos := maskSize_pos wide some_keys
  taskLimit_pos := checked.maxFindTaskSize_pos
  shift_lt p inside := by
    apply Nat.div_lt_of_lt_mul
    rw [Nat.mul_comm]
    exact Nat.mul_lt_mul_of_pos_right inside (maskSize_pos wide some_keys)

def FindState.begin (buffers : FindBuffers b) (parts : Nat → Partition Key) : FindState Key b where
  toFindBuffers := buffers
  parts := parts
  tasks _ := ⟨.word 0, 0, none⟩
  totalNumHits := 0
  visits _ _ := 0

/-- `find`, with the steps of the tasks in the order of the schedule. A failed check throws, and
signed overflow has no defined outcome. -/
def find {config : STLContainerTableConfig} (checked : config.Checked) (wide : 0 < b)
    (hash : Key → BitVec 64)
    (request : FindRequest Key) (lruTime : Nat → BitVec 64) (schedule : List Nat)
    (buffers : FindBuffers b)
    (parts : Nat → Partition Key) : Option (FindState Key b) :=
  if some_keys : 0 < request.n then
    if request.valueStride < config.maxValueSize ∨ ¬ FitsInt64 config b request.n then none
    else
      let call : FindCall Key :=
        ⟨config, home config hash, request, lruTime, findGrid checked wide some_keys⟩
      some (call.run schedule (.begin buffers parts))
  else some (.begin buffers parts)

structure FairSchedule (config : STLContainerTableConfig) (b n : Nat) (schedule : List Nat) :
    Prop where
  tasks : ∀ task ∈ schedule, task < config.numPartitions * numTasksPerPart config b n
  turns : ∀ task < config.numPartitions * numTasksPerPart config b n,
    min config.maxFindTaskSize (maskSize b n) * (b + 2) + 1 ≤ schedule.count task

def stored (config : STLContainerTableConfig) (hash : Key → BitVec 64) (parts : Nat → Partition Key)
    (key : Key) :
    Option (List UInt8) :=
  (parts (home config hash key)).get config key

namespace FindCall

variable (call : FindCall Key)

/-! ### Positions and the tasks they belong to -/

def Newly (mask : Nat → BitVec b) (parts : Nat → Partition Key) (q : Nat) : Prop :=
  q < call.request.n ∧ (mask (q / b)).getLsbD (q % b) = false ∧
    ((parts (call.home (call.request.keys q))).slotMap.lookup (call.request.keys q)).isSome

instance (mask : Nat → BitVec b) (parts : Nat → Partition Key) (q : Nat) :
    Decidable (call.Newly mask parts q) :=
  inferInstanceAs (Decidable (_ ∧ _ ∧ _))

def owner (b q : Nat) : Nat := call.grid.taskOf (call.home (call.request.keys q)) (q / b)

def turn (b q : Nat) : Nat := call.grid.idxOf (call.home (call.request.keys q)) (q / b)

end FindCall

namespace Phase

def Loaded : Phase b → Nat → Prop
  | .word hmIdx, i => i < hmIdx
  | .bits hmIdx _ _, i => i ≤ hmIdx
  | .done, _ => True

def Passed : Phase b → Nat → Nat → Prop
  | .word hmIdx, i, _ => i < hmIdx
  | .bits hmIdx it _, i, j => i < hmIdx ∨ (i = hmIdx ∧ it.getLsbD j = false)
  | .done, _, _ => True

def Joined : Phase b → Nat → Prop
  | .word hmIdx, i => i < hmIdx
  | .bits hmIdx _ _, i => i < hmIdx
  | .done, _ => True

end Phase

namespace FindCall

variable (call : FindCall Key)

/-- The setting of a call: the table is well formed, and rows do not overlap in the output. -/
structure Proper (b : Nat) (parts : Nat → Partition Key) : Prop where
  checked : call.config.Checked
  wide : 0 < b
  words : call.grid.words = maskSize b call.request.n
  homes : ∀ key, call.home key < call.grid.parts
  spaced : call.config.maxValueSize ≤ call.request.valueStride
  formed : ∀ p, (parts p).WellFormed call.config call.home p

section Positions

variable {call} {parts : Nat → Partition Key} (proper : call.Proper b parts)

include proper

omit [DecidableEq Key] in
theorem owner_lt (q : Nat) : call.owner b q < call.grid.numTasks :=
  TaskGrid.taskOf_lt (proper.homes _)

omit proper in
omit [DecidableEq Key] in
theorem turn_lt (q : Nat) : call.turn b q < call.grid.size (call.owner b q) := TaskGrid.idxOf_lt

omit [DecidableEq Key] in
theorem owner_turn_iff {task hmIdx q : Nat} (inside : task < call.grid.numTasks)
    (below : hmIdx < call.grid.size task)
    (listed : q < call.request.n) :
    call.owner b q = task ∧ call.turn b q = hmIdx ↔
      call.home (call.request.keys q) = call.grid.part task ∧
        q / b = call.grid.word task hmIdx := by
  have word : q / b < call.grid.words := proper.words ▸ word_lt proper.wide listed
  exact TaskGrid.turn_iff inside below (proper.homes _) word

omit [DecidableEq Key] in
theorem position_div {w j : Nat} (below : j < b) : (w * b + j) / b = w ∧ (w * b + j) % b = j := by
  constructor
  · rw [Nat.mul_comm, Nat.mul_add_div proper.wide, Nat.div_eq_of_lt below, Nat.add_zero]
  · rw [Nat.mul_comm, Nat.mul_add_mod, Nat.mod_eq_of_lt below]

end Positions

end FindCall

end EmbedCache.STLContainerTable
