import EmbedCache.NvhmTable

/-! `find` of the host tables when the hit mask may be the null pointer.

A load through the null pointer has no defined outcome. The maps and the databases go by the words
of the mask, the linear table asks for the mask first. -/

namespace EmbedCache.AbsentMask

open Lib HostTable Bitmask List
open STLContainerTable (FindRequest FindBuffers FindCall)

variable {Key Map : Type*} {b : Nat}

def load (present : Bool) (hitMask : Nat → BitVec b) (w : Nat) : Option (BitVec b) :=
  if present then some (hitMask w) else none

/-! ### `STLContainerTable` -/

section Stl

variable [DecidableEq Key]

def loads (call : FindCall Key) (state : STLContainerTable.FindState Key b) (task : Nat) : Bool :=
  match (state.tasks task).phase with
  | .word hmIdx => hmIdx ≠ call.grid.size task
  | _ => false

def stlStep (present : Bool) (call : FindCall Key) (state : STLContainerTable.FindState Key b)
    (task : Nat) :
    Option (STLContainerTable.FindState Key b) :=
  if loads call state task && !present then none else some (call.step state task)

def stlFind (table : STLContainerTable.Setup Key b) (parts : Nat → STLContainerTable.Partition Key)
    (lruTime : Nat → BitVec 64) (schedule : List Nat) (present : Bool) (request : FindRequest Key)
    (buffers : FindBuffers b) :
    Option (FindBuffers b × Int) :=
  if some_keys : 0 < request.n then
    if request.valueStride < table.config.maxValueSize ∨
      ¬ STLContainerTable.FitsInt64 table.config b request.n then none
    else
      let call : FindCall Key :=
        ⟨table.config, table.home, request, lruTime,
          STLContainerTable.findGrid table.checked table.wide some_keys⟩
      (schedule.foldlM (stlStep present call) (.begin buffers parts)).map fun state =>
        (state.toFindBuffers, state.totalNumHits)
  else some (buffers, 0)

end Stl

/-! ### `NvhmMapTable` -/

/-- The positions in the order in which they are got to, each after a load of its word. -/
def nvhmFind (table : NvhmMapTable.Setup Map Key) (parts : Nat → Map) (lruTime : Nat → BitVec 64)
    (order : List Nat) (present : Bool) (request : FindRequest Key) (buffers : FindBuffers b) :
    Option (FindBuffers b × Int) :=
  if 0 < request.n then
    if request.valueStride < table.config.maxValueSize ∨ ¬ table.FitsInt64 b request.n then none
    else
      (order.foldlM (fun state q => (load present state.hitMask (q / b)).map fun _ =>
        table.findAt request lruTime state q)
        ⟨buffers, parts, 0⟩).map fun state => (state.toFindBuffers, (state.totalNumHits : Int))
  else some (buffers, 0)

/-! ### Batches of keys for a database -/

structure Database (Key : Type*) where
  lookup : Key → Option (List UInt8)
  maxBatchSize : Nat
  /-- The size of a value is checked even if no values are asked for. -/
  checksSizes : Bool
  /-- There is room for the keys of one batch: RocksDB's views, and the prefixed keys of Redis. -/
  fixedRoom : Bool

/-- The words a task goes through, the end of its keys and the keys it takes. -/
structure WordTask (Key : Type*) where
  words : List Nat
  hi : Nat
  own : Key → Bool

structure Progress (b : Nat) extends FindBuffers b where
  batch : List Nat
  numHits : Nat

namespace Database

variable (db : Database Key) (present : Bool) (request : FindRequest Key) (state : Progress b)

def reply (q : Nat) : Option (Progress b) :=
  match db.lookup (request.keys q) with
  | none => some state
  | some bytes =>
    if (db.checksSizes || request.withValues) ∧ request.valueStride < bytes.length then none
    else
      (load present state.hitMask (q / b)).map fun mask =>
        { state with
          hitMask := Function.update state.hitMask (q / b) (set mask (q % b))
          values := if request.withValues
            then blit state.values (q * request.valueStride) bytes.length fun i =>
              bytes.getD i 0 else state.values
          valueSizes := if request.withValueSizes
            then Function.update state.valueSizes q bytes.length else state.valueSizes
          numHits := state.numHits + 1 }

def processBatch : Option (Progress b) :=
  (state.batch.foldlM (db.reply present request) state).map fun state => { state with batch := [] }

def batchSize : Nat := min request.n db.maxBatchSize

/-- One word of the mask: its open positions join the batch, which is sent before if it would get
too long. A word may have more of them than a batch has room for. -/
def word (task : WordTask Key) (state : Progress b) (w : Nat) : Option (Progress b) :=
  (load present state.hitMask w).bind fun mask =>
    let it := clip (invert mask) (task.hi - w * b)
    let positions := ((List.range b).filter fun j => it.getLsbD j).map fun j => w * b + j
    let sent := if state.batch.length + positions.length > db.batchSize request
      then db.processBatch present request state else some state
    sent.bind fun state =>
      let batch := state.batch ++ positions.filter fun q => task.own (request.keys q)
      if db.fixedRoom ∧ db.batchSize request < batch.length then none
      else some { state with batch := batch }

def runTask (task : WordTask Key) : Option (Progress b) :=
  (task.words.foldlM (db.word present request task) { state with batch := [] }).bind fun state =>
    if state.batch.isEmpty then some state else db.processBatch present request state

def find (tasks : List (WordTask Key)) (buffers : FindBuffers b) : Option (FindBuffers b × Int) :=
  if 0 < request.n then
    (tasks.foldlM (db.runTask present request) ⟨buffers, [], 0⟩).map fun state =>
      (state.toFindBuffers, (state.numHits : Int))
  else some (buffers, 0)

end Database

def rocksTasks (b n : Nat) : List (WordTask Key) := [⟨List.range (maskSize b n), n, fun _ => true⟩]

inductive RedisMode (Key : Type*)
  | string (numParts : Nat)
  | singleHash
  | partitioned (numParts : Nat) (positive : 0 < numParts) (home : Key → Nat)

/-- `task_range`; its numbers stay in `int64_t` while `n + parts * (b + 1)` is below `2 ^ 63`. -/
def taskRange (b n parts t : Nat) : Nat × Nat :=
  let chunk := maskSize b ((n + parts - 1) / parts) * b
  let lo := min (t * chunk) n
  (lo, min (lo + chunk) n)

def redisTasks (b n : Nat) : RedisMode Key → List (WordTask Key)
  | .string numParts =>
    (List.range (max numParts 1)).map fun t =>
      let range := taskRange b n (max numParts 1) t
      ⟨(List.range (maskSize b (range.2 - range.1))).map fun k => range.1 / b + k, range.2,
        fun _ => true⟩
  | .singleHash => [⟨List.range (maskSize b n), n, fun _ => true⟩]
  | .partitioned numParts _ home =>
    (List.range numParts).map fun p =>
      ⟨(List.range (maskSize b n)).map fun t => (t + maskSize b n * p / numParts) % maskSize b n, n,
        fun key => home key = p⟩

/-! ### `LinearHostTable` -/

structure Linear (Key : Type*) where
  index : Key → Nat
  table : Nat → UInt8
  rowSize : Nat
  numThreads : Nat
  numThreads_pos : 0 < numThreads

namespace Linear

variable (linear : Linear Key) (present : Bool) (request : FindRequest Key)

def keysPerTask (b : Nat) : Nat :=
  maskSize b ((request.n + linear.numThreads - 1) / linear.numThreads) * b

variable (hitMask : Nat → BitVec b)

def gatherKey (idx : Nat) (values : Nat → UInt8) (i : Nat) : Nat → UInt8 :=
  let baseKey := idx * linear.keysPerTask request b
  if request.n ≤ baseKey + i then values
  else if present && (hitMask (baseKey / b + i / b)).getLsbD (i % b) then values
  else blit values ((baseKey + i) * request.valueStride) linear.rowSize fun a =>
    linear.table (linear.index (request.keys (baseKey + i)) * linear.rowSize + a)

def gatherTask (values : Nat → UInt8) (idx : Nat) : Nat → UInt8 :=
  (List.range (linear.keysPerTask request b)).foldl
    (linear.gatherKey present request hitMask idx) values

def fillMask : Nat → BitVec b := fun w =>
  if present then
    if w < request.n / b then BitVec.allOnes b
    else if w = request.n / b ∧ request.n % b ≠ 0 then BitVec.ofNat b (2 ^ (request.n % b) - 1)
    else hitMask w
  else hitMask w

/-- `find`, with the tasks in any order; the sizes of values are not written, and all keys are
counted. -/
def find (order : List Nat) (buffers : FindBuffers b) : Option (FindBuffers b × Int) :=
  if 0 < request.n ∧ request.withValues then
    some (⟨fillMask present request buffers.hitMask,
      order.foldl (linear.gatherTask present request buffers.hitMask) buffers.values,
        buffers.valueSizes⟩, (request.n : Int))
  else none

end Linear

/-! ### The five kinds -/

/-- A table of each kind, with what is left open about a call: schedules, times and orders of
tasks. -/
inductive HostFind (Key Map : Type*) [DecidableEq Key] (b : Nat)
  | stl (table : STLContainerTable.Setup Key b) (parts : Nat → STLContainerTable.Partition Key)
      (lruTime : Nat → BitVec 64) (schedule : List Nat)
  | nvhm (table : NvhmMapTable.Setup Map Key) (parts : Nat → Map) (lruTime : Nat → BitVec 64)
      (order : List Nat)
  | redis (db : Database Key) (mode : RedisMode Key) (order : Shuffle (WordTask Key))
  | rocksdb (db : Database Key)
  | linear (table : Linear Key) (order : List Nat)

namespace HostFind

variable [DecidableEq Key] (kind : HostFind Key Map b)

def find (present : Bool) (request : FindRequest Key) (buffers : FindBuffers b) :
    Option (FindBuffers b × Int) :=
  match kind with
  | .stl table parts lruTime schedule =>
    stlFind table parts lruTime schedule present request buffers
  | .nvhm table parts lruTime order => nvhmFind table parts lruTime order present request buffers
  | .redis db mode order =>
    db.find present request (order.order (redisTasks b request.n mode)) buffers
  | .rocksdb db => db.find present request (rocksTasks b request.n) buffers
  | .linear table order => table.find present request order buffers

def Scheduled (n : Nat) : Prop :=
  match kind with
  | .stl table _ _ schedule => STLContainerTable.FairSchedule table.config b n schedule
  | .nvhm _ _ _ order => order.Perm (List.range n)
  | .redis _ _ _ => True
  | .rocksdb _ => True
  | .linear table order => order.Perm (List.range table.numThreads)

def IsLinear : HostFind Key Map b → Prop
  | .linear _ _ => True
  | _ => False

/-- Without a mask, `find` completes with the values, sizes and count of a call with a mask of
zeros. -/
def AbsentIsZero (request : FindRequest Key) (buffers : FindBuffers b) : Prop :=
  ∃ absent zero, kind.find false request buffers = some absent ∧
    kind.find true request { buffers with hitMask := fun _ => 0 } = some zero ∧
    absent.1.values = zero.1.values ∧ absent.1.valueSizes = zero.1.valueSizes ∧ absent.2 = zero.2

end HostFind

section Proofs

variable {request : FindRequest Key} {buffers : FindBuffers b}

theorem foldlM_none {σ α : Type*} {step : σ → α → Option σ} {state : σ} {items : List α}
    (listed : items ≠ [])
    (fails : ∀ item ∈ items, step state item = none) : items.foldlM step state = none := by
  cases items with
  | nil => exact absurd rfl listed
  | cons item rest =>
    rw [foldlM_cons, fails item mem_cons_self]
    rfl

theorem foldlM_preserves {σ α : Type*} {step : σ → α → Option σ} (invariant : σ → Prop)
    {items : List α}
    (kept : ∀ item ∈ items, ∀ before after, invariant before → step before item = some after →
      invariant after)
    {start ended : σ} (holds : invariant start) (ran : items.foldlM step start = some ended) :
      invariant ended := by
  induction items generalizing start with
  | nil => exact Option.some.inj ran ▸ holds
  | cons item rest ih =>
    rw [foldlM_cons] at ran
    obtain ⟨next, stepped, later⟩ := Option.bind_eq_some_iff.mp ran
    exact ih (fun item member => kept item (mem_cons_of_mem _ member))
      (kept item mem_cons_self start next holds stepped) later

/-- The first step of any task loads a word. -/
theorem stlFind_absent [DecidableEq Key] (table : STLContainerTable.Setup Key b)
    (parts : Nat → STLContainerTable.Partition Key)
    (lruTime : Nat → BitVec 64) {schedule : List Nat} (some_keys : 0 < request.n)
    (fair : STLContainerTable.FairSchedule table.config b request.n schedule) :
    stlFind table parts lruTime schedule false request buffers = none := by
  have listed : schedule ≠ [] := by
    rintro rfl
    have tasks : 0 < table.config.numPartitions *
        STLContainerTable.numTasksPerPart table.config b request.n :=
      Nat.mul_pos table.checked.numPartitions_pos
        (@TaskGrid.tasksPerPart_pos (STLContainerTable.findGrid table.checked table.wide some_keys))
    have turns := fair.turns 0 tasks
    rw [count_nil] at turns
    omega
  rw [stlFind, dif_pos some_keys]
  split
  · rfl
  · dsimp only
    rw [foldlM_none listed]
    · rfl
    · intro task _
      rw [stlStep, if_pos]
      have begins :
          (0 : Nat) ≠ (STLContainerTable.findGrid table.checked table.wide some_keys).size task :=
        (TaskGrid.size_pos task).ne
      simpa [loads, STLContainerTable.FindState.begin] using begins

theorem nvhmFind_absent (table : NvhmMapTable.Setup Map Key) (parts : Nat → Map)
    (lruTime : Nat → BitVec 64) {order : List Nat} (some_keys : 0 < request.n)
    (all : order.Perm (List.range request.n)) :
    nvhmFind table parts lruTime order false request buffers = none := by
  have listed : order ≠ [] := by
    rintro rfl
    have lengths := all.length_eq
    rw [length_range, length_nil] at lengths
    omega
  rw [nvhmFind, if_pos some_keys]
  split
  · rfl
  · rw [foldlM_none listed]
    · rfl
    · exact fun _ _ => rfl

theorem Database.runTask_absent (db : Database Key) {task : WordTask Key}
    (some_words : task.words ≠ []) (state : Progress b) :
    db.runTask false request state task = none := by
  rw [runTask, foldlM_none some_words]
  · rfl
  · exact fun _ _ => rfl

theorem Database.find_absent (db : Database Key) {tasks : List (WordTask Key)}
    (some_keys : 0 < request.n)
    (some_words : ∃ task ∈ tasks, task.words ≠ []) :
      db.find false request tasks buffers = none := by
  have stops (state : Progress b) : tasks.foldlM (db.runTask false request) state = none := by
    induction tasks generalizing state with
    | nil =>
      obtain ⟨task, member, -⟩ := some_words
      exact absurd member not_mem_nil
    | cons task rest ih =>
      rw [foldlM_cons]
      cases ran : db.runTask false request state task with
      | none => rfl
      | some next =>
        refine ih ?_ next
        obtain ⟨busy, member, words⟩ := some_words
        rcases mem_cons.mp member with rfl | later
        · rw [Database.runTask_absent db words] at ran
          exact absurd ran (Option.some_ne_none _).symm
        · exact ⟨busy, later, words⟩
  rw [find, if_pos some_keys, stops]
  rfl

theorem redisTasks_words (wide : 0 < b) {n : Nat} (some_keys : 0 < n) (mode : RedisMode Key) :
    ∃ task ∈ redisTasks b n mode, task.words ≠ [] := by
  have words : List.range (maskSize b n) ≠ [] := by
    rw [Ne, range_eq_nil]
    exact (maskSize_pos wide some_keys).ne'
  cases mode with
  | string numParts =>
    refine ⟨_, mem_map.mpr ⟨0, mem_range.mpr (by omega), rfl⟩, ?_⟩
    rw [Ne, map_eq_nil_iff, range_eq_nil]
    have share : 0 < (n + max numParts 1 - 1) / max numParts 1 := Nat.div_pos (by omega) (by omega)
    have chunk : 0 < maskSize b ((n + max numParts 1 - 1) / max numParts 1) * b :=
      Nat.mul_pos (maskSize_pos wide share) wide
    have end_pos : 0 < (taskRange b n (max numParts 1) 0).2 -
        (taskRange b n (max numParts 1) 0).1 := by
      simp only [taskRange]
      omega
    exact (maskSize_pos wide end_pos).ne'
  | singleHash => exact ⟨_, mem_singleton.mpr rfl, words⟩
  | partitioned numParts positive home =>
    refine ⟨_, mem_map.mpr ⟨0, mem_range.mpr positive, rfl⟩, ?_⟩
    rw [Ne, map_eq_nil_iff]
    exact words

theorem Linear.gather_zero (table : Linear Key) (hitMask : Nat → BitVec b) (order : List Nat)
    (values : Nat → UInt8) :
    order.foldl (table.gatherTask false request hitMask) values =
      order.foldl (table.gatherTask true request fun _ => (0 : BitVec b)) values := by
  have same : table.gatherTask false request hitMask = table.gatherTask true request fun _ =>
      (0 : BitVec b) := by
    funext values idx
    rw [gatherTask, gatherTask]
    congr 1
    funext values i
    rw [gatherKey, gatherKey]
    simp
  rw [same]

variable [DecidableEq Key]

/-- The kinds that go by the words of the mask do not get through without it. -/
theorem find_absent (wide : 0 < b) {kind : HostFind Key Map b}
    (scheduled : kind.Scheduled request.n)
    (driven : ¬ kind.IsLinear) (some_keys : 0 < request.n) :
      kind.find false request buffers = none := by
  cases kind with
  | stl table parts lruTime schedule => exact stlFind_absent table parts lruTime some_keys scheduled
  | nvhm table parts lruTime order => exact nvhmFind_absent table parts lruTime some_keys scheduled
  | redis db mode order =>
    apply db.find_absent some_keys
    obtain ⟨task, member, words⟩ := redisTasks_words wide some_keys mode
    exact ⟨task, (order.perm _).mem_iff.mpr member, words⟩
  | rocksdb db =>
    apply db.find_absent some_keys
    refine ⟨_, mem_singleton.mpr rfl, ?_⟩
    rw [Ne, range_eq_nil]
    exact (maskSize_pos wide some_keys).ne'
  | linear table order => exact absurd trivial driven

theorem find_nothing {kind : HostFind Key Map b} (driven : ¬ kind.IsLinear)
    (nothing : request.n = 0) (present : Bool)
    (buffers : FindBuffers b) : kind.find present request buffers = some (buffers, 0) := by
  have no_keys : ¬ 0 < request.n := by omega
  cases kind with
  | stl table parts lruTime schedule => exact dif_neg no_keys
  | nvhm table parts lruTime order => exact if_neg no_keys
  | redis db mode order => exact if_neg no_keys
  | rocksdb db => exact if_neg no_keys
  | linear table order => exact absurd trivial driven

end Proofs

/-- An absent mask is as good as a mask of zeros for the linear table, and for the others only if
there are no keys. -/
theorem absent_mask_iff [DecidableEq Key] (wide : 0 < b) (kind : HostFind Key Map b)
    (request : FindRequest Key) (buffers : FindBuffers b)
    (scheduled : kind.Scheduled request.n) :
    kind.AbsentIsZero request buffers ↔
      (kind.IsLinear ∧ 0 < request.n ∧ request.withValues = true) ∨
        (¬ kind.IsLinear ∧ request.n = 0) := by
  by_cases linear : kind.IsLinear
  · cases kind with
    | linear table order =>
      constructor
      · rintro ⟨absent, zero, found, -⟩
        left
        refine ⟨trivial, ?_⟩
        by_contra refused
        rw [HostFind.find, Linear.find, if_neg refused] at found
        exact absurd found (Option.some_ne_none _).symm
      · intro either
        obtain ⟨-, accepted⟩ := either.resolve_right fun other => other.1 linear
        refine ⟨_, _, if_pos accepted, if_pos accepted, ?_, rfl, rfl⟩
        exact Linear.gather_zero table buffers.hitMask order buffers.values
    | _ => exact absurd linear id
  · constructor
    · rintro ⟨absent, zero, found, -⟩
      right
      refine ⟨linear, ?_⟩
      by_contra some_keys
      rw [find_absent wide scheduled linear (Nat.pos_of_ne_zero some_keys)] at found
      exact absurd found (Option.some_ne_none _).symm
    · intro either
      obtain ⟨-, nothing⟩ := either.resolve_left fun other => linear other.1
      exact ⟨_, _, find_nothing linear nothing false _, find_nothing linear nothing true _,
        rfl, rfl, rfl⟩

def byteRows : HostFind Nat Unit 64 := .linear ⟨id, fun a => UInt8.ofNat a, 1, 1, Nat.one_pos⟩ [0]

def threeKeys : FindRequest Nat := ⟨3, fun q => 10 * q, 1, true, false⟩

def blank : FindBuffers 64 := ⟨fun _ => 0, fun _ => 0, fun _ => 0⟩

theorem absent_mask_linear : byteRows.Scheduled 3 ∧ byteRows.AbsentIsZero threeKeys blank := by
  have order : byteRows.Scheduled 3 := List.Perm.refl _
  exact ⟨order, (absent_mask_iff (by decide) byteRows threeKeys blank order).mpr
    (.inl ⟨trivial, by decide, rfl⟩)⟩

def oneEntry : Database Nat := ⟨fun key => if key = 10 then some [7] else none, 64, false, true⟩

/-- With a mask of zeros the stored row is found, without a mask nothing is. -/
theorem absent_mask_stops_rocksdb :
    (HostFind.rocksdb oneEntry : HostFind Nat Unit 64).find false threeKeys blank = none ∧
    ∃ zero, (HostFind.rocksdb oneEntry : HostFind Nat Unit 64).find true threeKeys blank =
      some zero ∧
      zero.1.values 1 = 7 ∧ zero.2 = 1 := by
  refine ⟨by rfl, ?_⟩
  have counted : ((HostFind.rocksdb oneEntry : HostFind Nat Unit 64).find true threeKeys blank).map
      (fun zero => (zero.1.values 1, zero.2)) = some (7, 1) := by decide +kernel
  obtain ⟨zero, found, same⟩ := Option.map_eq_some_iff.mp counted
  exact ⟨zero, found, (Prod.mk.inj same).1, (Prod.mk.inj same).2⟩

end EmbedCache.AbsentMask
