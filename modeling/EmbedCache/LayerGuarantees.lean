import EmbedCache.LayerAccounting

/-! What callers of a stack's lookup can rely on: first tables, defaults and untouched rows.

The remainder that guards the default embedding is set anew by each GPU table, so only
the last of them decides whether missing keys get it. -/

namespace EmbedCache.HierarchicalEmbeddingLayer

open BufferWrapper List

variable {w : Nat} {shape : RowShape}

/-! ### The remainder -/

def countsMisses (table : LayerTable w shape) : Bool :=
  match table.kind with
  | .gpuCache countMisses | .gpuUvm countMisses _ => countMisses
  | .hostMap _ _ | .hostLinear => false

/-- The misses that the last GPU table reports; without one all keys are left. -/
def missesReported (gpus : List (LayerTable w shape)) (keys : List (BitVec w)) : Nat :=
  match gpus.getLast? with
  | none => keys.length
  | some table => match table.kind with
    | .gpuCache true => unresolved (maskTables gpus) keys
    | .gpuUvm true cached => keys.countP fun key => !cached key
    | _ => 0

/-- The keys that the host tables are asked for and have. -/
def hostHits (gpus hosts : List (LayerTable w shape)) (keys : List (BitVec w)) : Nat :=
  keys.countP fun key => (firstRow (maskTables gpus) key).isNone && (firstRow hosts key).isSome

section Remainder

/-- A report of misses replaces the remainder, a report of hits lowers it. -/
theorem accountHits_left (counted : List (Bool × Nat)) (left : Int) : (accountHits counted left).2 =
    counted.foldl (fun left report => if report.1 then left - report.2 else report.2) left := by
  induction counted generalizing left with
  | nil => rfl
  | cons report rest ih =>
    obtain ⟨countsHits, counter⟩ := report
    rw [accountHits, foldl_cons, ← ih]
    cases countsHits with
    | true => rfl
    | false => simp

variable (keys : List (BitVec w))

theorem stackCounts_length (tables : List (LayerTable w shape)) (mask : Nat → Bool) :
    (stackCounts keys tables mask).length = tables.length := by
  induction tables generalizing mask with
  | nil => rfl
  | cons table tables ih => rw [stackCounts, length_cons, length_cons, ih]

def reports (tables : List (LayerTable w shape)) (mask : Nat → Bool) : List (Bool × Nat) :=
  (tables.map fun table => table.kind.countsHits).zip (stackCounts keys tables mask)

theorem reports_append (early late : List (LayerTable w shape)) (mask : Nat → Bool) :
    reports keys (early ++ late) mask = reports keys early mask ++
      reports keys late (maskAfter (firstRow (maskTables early)) keys mask) := by
  rw [reports, map_append, stackCounts_append, zip_append (by rw [length_map, stackCounts_length])]
  rfl

theorem left_gpus {gpus : List (LayerTable w shape)}
    (onGpu : ∀ table ∈ gpus, table.kind.onGpu = true) :
    (accountHits (reports keys gpus fun _ => false) keys.length).2 = missesReported gpus keys := by
  rw [accountHits_left, missesReported]
  rcases eq_nil_or_concat gpus with rfl | ⟨early, table, rfl⟩
  · rfl
  · have gpu := onGpu table (by simp)
    rw [concat_eq_append, reports_append, foldl_append, getLast?_concat]
    -- whatever was left before, the last table sets the remainder
    generalize foldl _ _ (reports keys early _) = before
    cases kind : table.kind with
    | gpuCache countMisses =>
      cases countMisses with
      | true =>
        have misses : newMisses table.content keys (maskOf (maskTables early) keys) =
            unresolved (maskTables (early ++ [table])) keys := by
          rw [newMisses_eq, maskOf_concat, openKeys_maskOf, maskTables_append]
          simp [maskTables, kind, TableKind.isUvm]
        simp only [reports, map_cons, map_nil, stackCounts, zip_cons_cons,
          zip_nil_right, foldl_cons,
          foldl_nil, kind, TableKind.countsHits, TableKind.onGpu, LayerTable.counts]
        exact congrArg Int.ofNat misses
      | false =>
        simp [reports, stackCounts, kind, TableKind.countsHits, TableKind.onGpu, LayerTable.counts]
    | gpuUvm countMisses cached =>
      cases countMisses <;>
        simp [reports, stackCounts, kind, TableKind.countsHits, TableKind.onGpu, LayerTable.counts]
    | hostMap | hostLinear => simp [kind, TableKind.onGpu] at gpu

theorem left_maps {hosts : List (LayerTable w shape)}
    (maps : ∀ table ∈ hosts, table.kind.onGpu = false ∧ table.kind.isLinear = false)
    (mask : Nat → Bool) (left : Int) :
    (accountHits (reports keys hosts mask) left).2 = left - newHits (firstRow hosts) keys mask := by
  rw [accountHits_left]
  induction hosts generalizing mask left with
  | nil =>
    have nothing : newHits (firstRow ([] : List (LayerTable w shape))) keys mask = 0 := by
      rw [newHits, countP_eq_zero]
      intro i _
      cases present : keys[i]? <;> simp [chosenRow, firstRow, present]
    rw [nothing]
    simp [reports, stackCounts]
  | cons table hosts ih =>
    obtain ⟨host, bounded⟩ := maps table mem_cons_self
    cases kind : table.kind with
    | gpuCache | gpuUvm => simp [kind, TableKind.onGpu] at host
    | hostLinear => simp [kind, TableKind.isLinear] at bounded
    | hostMap numParts partitioner =>
      have marks := table.marks_of_masked (by simp [kind, TableKind.isUvm])
      have later := ih (fun other member => maps other (mem_cons_of_mem _ member))
        (maskAfter table.content keys mask) (left - newHits table.content keys mask)
      rw [firstRow_cons, newHits_or]
      simp only [reports, map_cons, stackCounts, zip_cons_cons, foldl_cons, marks, kind,
        TableKind.countsHits, TableKind.onGpu, LayerTable.counts, Bool.not_false,
          if_true] at later ⊢
      rw [later]
      push_cast
      ring

end Remainder

variable {tables gpus hosts : List (LayerTable w shape)}

/-- The remainder that guards the default embedding, if no host table answers for all keys. -/
theorem Stack.left_eq (stack : Stack tables gpus hosts)
    (bounded : ∀ table ∈ hosts, table.kind.isLinear = false) (keys : List (BitVec w)) :
    (accountHits (reports keys tables fun _ => false) keys.length).2 =
      (missesReported gpus keys : Int) - hostHits gpus hosts keys := by
  have maps :=
    left_maps keys (fun table member => ⟨stack.onHost table member, bounded table member⟩)
    (maskOf (maskTables gpus) keys) (missesReported gpus keys)
  have gpuLeft := left_gpus keys stack.onGpu
  rw [newHits_eq, accountHits_left] at maps
  rw [accountHits_left] at gpuLeft
  rw [stack.split, reports_append, accountHits_left, foldl_append, gpuLeft]
  exact maps

theorem TableKind.isUvm_of_bounded {kind : TableKind w} (bounded : kind.isLinear = false) :
    kind.isUvm = false := by
  cases kind with
  | gpuUvm | hostLinear => cases bounded
  | gpuCache | hostMap => rfl

theorem bounded_of_missing {key : BitVec w} (missing : firstRow tables key = none) :
    ∀ table ∈ tables, table.kind.isLinear = false := by
  intro table member
  by_contra linear
  have present := table.total (by simpa using linear) key
  have found := (firstRow_isSome_iff tables key).mpr ⟨table, member, present⟩
  rw [missing] at found
  exact absurd found (by simp)

theorem masked_of_missing {key : BitVec w} (missing : firstRow tables key = none) :
    ∀ table ∈ tables, table.kind.isUvm = false :=
  fun table member => TableKind.isUvm_of_bounded (bounded_of_missing missing table member)

/-- With a missing key, keys are left exactly if the last GPU table counts its misses. -/
theorem Stack.left_pos_iff (stack : Stack tables gpus hosts) {keys : List (BitVec w)}
    {key : BitVec w}
    (inside : key ∈ keys) (missing : firstRow tables key = none) :
    hostHits gpus hosts keys < missesReported gpus keys ↔
      ∀ table ∈ gpus.getLast?, countsMisses table = true := by
  have masked : ∀ table ∈ gpus, table.kind.isUvm = false := fun table member =>
    masked_of_missing missing table (by simp [stack.split, member])
  rw [stack.split, firstRow_append, orContents, Option.or_eq_none_iff] at missing
  have fewer : hostHits gpus hosts keys < unresolved gpus keys := by
    have split := countP_eq_countP_filter_add keys (fun key => (firstRow gpus key).isNone)
      fun key => (firstRow hosts key).isSome
    have rest : 0 < countP (fun key => (firstRow gpus key).isNone)
        (keys.filter fun key => !(firstRow hosts key).isSome) := by
      rw [countP_pos_iff]
      exact ⟨key, mem_filter.mpr ⟨inside, by simp [missing.2]⟩, by simp [missing.1]⟩
    rw [countP_filter] at split
    rw [hostHits, unresolved, maskTables_eq_self gpus masked]
    omega
  rw [missesReported, maskTables_eq_self gpus masked]
  cases last : gpus.getLast? with
  | none =>
    obtain rfl := getLast?_eq_none_iff.mp last
    rw [unresolved_nil] at fewer
    simpa using fewer
  | some table =>
    simp only [Option.mem_some_iff, forall_eq']
    cases kind : table.kind with
    | gpuCache countMisses => cases countMisses <;> simp [countsMisses, kind, fewer]
    | gpuUvm =>
      have uvm := masked table (mem_of_getLast? last)
      rw [kind] at uvm
      cases uvm
    | hostMap | hostLinear => simp [countsMisses, kind]

/-! ### First tables and defaults -/

/-- Rows are those of the first table with the key, else the default; mask bits say whether there is
a table. -/
def ResolvesFirst (tables : List (LayerTable w shape)) (defaultEmbedding : Option (Nat → UInt8))
    (call : LookupCall w) :
    Prop :=
  (0 < call.numKeys → ∃ result, lookup tables defaultEmbedding call = some result) ∧
  ∀ result, lookup tables defaultEmbedding call = some result → ∀ i < call.numKeys,
    (∀ row, (firstRow tables (call.keyMemory .caller i)).or defaultEmbedding = some row →
      ∀ o < shape.width, result.output (i * shape.stride + o) = row o) ∧
    (∀ mask, result.hitmask = some mask →
      mask i = (firstRow tables (call.keyMemory .caller i)).isSome)

def gpuTables (tables : List (LayerTable w shape)) : List (LayerTable w shape) :=
  tables.filter fun table => table.kind.onGpu

def hostTables (tables : List (LayerTable w shape)) : List (LayerTable w shape) :=
  tables.filter fun table => !table.kind.onGpu

theorem Stack.gpuTables_eq (stack : Stack tables gpus hosts) : gpuTables tables = gpus := by
  have none : hosts.filter (fun table => table.kind.onGpu) = [] := by
    simpa using stack.onHost
  rw [gpuTables, stack.split, filter_append, none, append_nil]
  exact filter_eq_self.mpr stack.onGpu

theorem Stack.hostTables_eq (stack : Stack tables gpus hosts) : hostTables tables = hosts := by
  have none : gpus.filter (fun table => !table.kind.onGpu) = [] := by
    simpa using stack.onGpu
  rw [hostTables, stack.split, filter_append, none, nil_append]
  exact filter_eq_self.mpr fun table member => by simp [stack.onHost table member]

/-- The sizes allow the scatter to put the rows into place that it copies: those of the keys that
no GPU table has marked. -/
def RowsFit (tables : List (LayerTable w shape)) (call : LookupCall w) : Prop :=
  firstOnGpu tables = true → lastOnHost tables = true → ScatterFits shape call.numKeys fun i =>
    firstRow (maskTables (gpuTables tables)) (call.keyMemory .caller i) = none

theorem Stack.scattered (stack : Stack tables gpus hosts) {call : LookupCall w}
    (fits : RowsFit tables call) : Scattered gpus hosts call := by
  intro someGpus someHosts
  have both := fits (by simp [stack.firstOnGpu_eq, someGpus])
    (by simp [stack.lastOnHost_eq, someHosts])
  rwa [stack.gpuTables_eq] at both

/-- The default embedding, if the reports of the tables leave keys over. -/
def given (gpus hosts : List (LayerTable w shape)) (defaultEmbedding : Option (Nat → UInt8))
    (keys : List (BitVec w)) : Option (Nat → UInt8) :=
  if hostHits gpus hosts keys < missesReported gpus keys then defaultEmbedding else none

theorem Stack.leftRow_filling (stack : Stack tables gpus hosts) {call : LookupCall w}
    {defaultEmbedding : Option (Nat → UInt8)} {result : LookupResult w}
    (delivered : Delivered tables gpus hosts defaultEmbedding call result) (key : BitVec w) :
    leftRow gpus hosts (filling defaultEmbedding result.left) key =
      leftRow gpus hosts (given gpus hosts defaultEmbedding call.keys) key := by
  by_cases bounded : ∀ table ∈ hosts, table.kind.isLinear = false
  · have left : result.left = (missesReported gpus call.keys : Int) -
        hostHits gpus hosts call.keys := by
      rw [← stack.left_eq bounded, call.keys_length]
      exact congrArg Prod.snd delivered.accounted
    have same : 0 < result.left ↔
        hostHits gpus hosts call.keys < missesReported gpus call.keys := by
      rw [left]
      omega
    simp only [filling, given, same]
  · -- a table that has every key leaves nothing to be filled
    obtain ⟨table, member, linear⟩ : ∃ table ∈ hosts, table.kind.isLinear = true := by
      simpa using bounded
    have present := (firstRow_isSome_iff hosts key).mpr ⟨table, member, table.total linear key⟩
    obtain ⟨row, found⟩ := Option.isSome_iff_exists.mp present
    simp only [leftRow, found, Option.some_or]

/-- The row of the first table, or the default, is the one that is left, and a mask tells whether
there is a table. -/
def Settled (tables : List (LayerTable w shape)) (defaultEmbedding : Option (Nat → UInt8))
    (call : LookupCall w) (key : BitVec w) : Prop :=
  (call.hitmaskPlacement.isSome →
    (firstRow (maskTables tables) key).isSome = (firstRow tables key).isSome) ∧
  ∀ row, (firstRow tables key).or defaultEmbedding = some row →
    ∃ found, leftRow (gpuTables tables) (hostTables tables)
        (given (gpuTables tables) (hostTables tables) defaultEmbedding call.keys) key = some found ∧
      ∀ o < shape.width, found o = row o

theorem Stack.resolves_iff (stack : Stack tables gpus hosts)
    {defaultEmbedding : Option (Nat → UInt8)} (defaults : defaultEmbedding.isSome → hosts ≠ [])
    {call : LookupCall w} (fits : RowsFit tables call) :
    (∀ memory, ResolvesFirst tables defaultEmbedding { call with outputMemory := memory }) ↔
      ∀ i < call.numKeys, Settled tables defaultEmbedding call (call.keyMemory .caller i) := by
  simp only [Settled, stack.gpuTables_eq, stack.hostTables_eq]
  constructor
  · intro resolves i inside
    refine ⟨fun requested => ?_, fun row expected => ?_⟩
    · obtain ⟨result, returned, _, delivered⟩ :=
        stack.lookup call (by omega) defaultEmbedding defaults
      obtain ⟨mask, reported⟩ := Option.isSome_iff_exists.mp (delivered.requested.trans requested)
      rw [← delivered.bits mask reported i inside]
      exact ((resolves call.outputMemory).2 result returned i inside).2 mask reported
    · -- memory with another byte than the row shows whether something was written
      obtain ⟨result, returned, _, delivered⟩ :=
        stack.lookup { call with outputMemory := fun _ _ => row 0 + 1 } (by simpa using by omega)
          defaultEmbedding defaults
      have first := ((resolves fun _ _ => row 0 + 1).2 result returned i inside).1 row expected
      have bytes := delivered.rows (stack.scattered fits) i inside
      simp only [stack.leftRow_filling delivered] at bytes
      change ∀ o < shape.width, _ =
        ((leftRow gpus hosts (given gpus hosts defaultEmbedding call.keys)
        (call.keyMemory .caller i)).map fun row => row o).getD (row 0 + 1) at bytes
      cases left : leftRow gpus hosts (given gpus hosts defaultEmbedding call.keys)
          (call.keyMemory .caller i) with
      | none =>
        have kept := (first 0 shape.positive).symm.trans (bytes 0 shape.positive)
        rw [left] at kept
        simp at kept
      | some found =>
        refine ⟨found, rfl, fun o within => ?_⟩
        rw [← first o within, bytes o within, left]
        rfl
  · intro settled memory
    refine ⟨fun some_keys => ?_, fun result returned i inside => ?_⟩
    · obtain ⟨result, returned, _⟩ :=
        stack.lookup { call with outputMemory := memory } some_keys defaultEmbedding defaults
      exact ⟨result, returned⟩
    · obtain ⟨other, same, _, delivered⟩ := stack.lookup { call with outputMemory := memory }
        (Nat.lt_of_le_of_lt (Nat.zero_le i) inside) defaultEmbedding defaults
      obtain rfl : result = other := Option.some.inj (returned.symm.trans same)
      obtain ⟨bit, rows⟩ := settled i inside
      refine ⟨fun row expected o within => ?_, fun mask reported => ?_⟩
      · obtain ⟨found, left, agree⟩ := rows row expected
        have bytes := delivered.rows (stack.scattered fits) i inside o within
        rw [stack.leftRow_filling delivered] at bytes
        change _ = ((leftRow gpus hosts (given gpus hosts defaultEmbedding call.keys)
          (call.keyMemory .caller i)).map fun row => row o).getD _ at bytes
        rw [bytes, left, ← agree o within]
        rfl
      · have requested : call.hitmaskPlacement.isSome := by
          rw [← delivered.requested, reported]
          rfl
        rw [delivered.bits mask reported i inside]
        exact bit requested

/-- Without tables over unified memory the row left is that of the first table, else the fill. -/
theorem Stack.leftRow_of_masked (stack : Stack tables gpus hosts)
    (masked : ∀ table ∈ tables, table.kind.isUvm = false) {fill : Option (Nat → UInt8)}
    (filled : hosts = [] → fill = none) (key : BitVec w) :
    leftRow gpus hosts fill key = (firstRow tables key).or fill := by
  have gpuMasked : ∀ table ∈ gpus, table.kind.isUvm = false :=
    fun table member => masked table (by simp [stack.split, member])
  rw [leftRow, maskTables_eq_self gpus gpuMasked, written_of_masked gpus gpuMasked,
    if_neg Bool.false_ne_true, stack.split, firstRow_append, orContents]
  cases here : firstRow gpus key with
  | some row => simp
  | none =>
    by_cases noHosts : hosts = []
    · simp [noHosts, filled noHosts, firstRow]
    · simp [noHosts]

/-- What stacks without a table over unified memory have to do for a default: the last GPU table
counts its misses. -/
def CountedForDefault (tables : List (LayerTable w shape)) (defaultEmbedding : Option (Nat → UInt8))
    (call : LookupCall w) : Prop :=
  defaultEmbedding.isSome →
    (∃ i < call.numKeys, firstRow tables (call.keyMemory .caller i) = none) →
    ∀ table ∈ (gpuTables tables).getLast?, countsMisses table = true

theorem Stack.settled_iff_counted (stack : Stack tables gpus hosts)
    {defaultEmbedding : Option (Nat → UInt8)} (defaults : defaultEmbedding.isSome → hosts ≠ [])
    (masked : ∀ table ∈ tables, table.kind.isUvm = false) (call : LookupCall w) :
    (∀ i < call.numKeys, Settled tables defaultEmbedding call (call.keyMemory .caller i)) ↔
      CountedForDefault tables defaultEmbedding call := by
  have filled : hosts = [] → given gpus hosts defaultEmbedding call.keys = none := by
    intro noHosts
    cases defaultEmbedding with
    | none => exact ite_self _
    | some row => exact absurd noHosts (defaults rfl)
  simp only [Settled, CountedForDefault, stack.gpuTables_eq, stack.hostTables_eq,
    maskTables_eq_self tables masked, implies_true, true_and, stack.leftRow_of_masked masked filled]
  have member : ∀ {i}, i < call.numKeys → call.keyMemory .caller i ∈ call.keys :=
    fun inside => mem_map.mpr ⟨_, mem_range.mpr inside, rfl⟩
  constructor
  · rintro settled configured ⟨i, inside, missing⟩
    obtain ⟨row, rfl⟩ := Option.isSome_iff_exists.mp configured
    rw [← stack.left_pos_iff (member inside) missing]
    obtain ⟨found, left, _⟩ := settled i inside row (by rw [missing, Option.none_or])
    by_contra none
    rw [missing, Option.none_or, given, if_neg none] at left
    cases left
  · intro counted i inside row expected
    cases missing : firstRow tables (call.keyMemory .caller i) with
    | some first =>
      rw [missing, Option.some_or] at expected
      exact ⟨first, Option.some_or, fun o _ => congrFun (Option.some.inj expected) o⟩
    | none =>
      rw [missing, Option.none_or] at expected
      have open_keys := (stack.left_pos_iff (member inside) missing).mpr
        (counted (by simp [expected]) ⟨i, inside, missing⟩)
      exact ⟨row, by rw [Option.none_or, given, if_pos open_keys, expected], fun _ _ => rfl⟩

def uvmRows : LayerTable 8 pairRows where
  kind := .gpuUvm true fun _ => false
  device := 0
  content := fun _ => some fun _ => 5
  total := fun _ _ => rfl
  even := fun _ => rfl

theorem pairRows_fits (copied : Nat → Prop) : ScatterFits pairRows 2 copied :=
  ⟨fun _ _ _ => by decide, fun i inside _ => inside, fun i inside _ => by
    simp only [pairRows]
    omega⟩

def LeavesMisses (tables : List (LayerTable w shape)) (call : LookupCall w) : Prop :=
  ∀ result, lookup tables none call = some result → ∀ i < call.numKeys,
    firstRow tables (call.keyMemory .caller i) = none →
    ∀ o < shape.width, result.output (i * shape.stride + o) =
      call.outputMemory .caller (i * shape.stride + o)

def OutputOnLastSide (tables : List (LayerTable w shape)) (call : LookupCall w) : Prop :=
  if lastOnHost tables then call.outputPlacement = .host ∨ call.outputPlacement = .unregistered
  else call.outputPlacement = .device

theorem Stack.restMirror_caller_iff (stack : Stack tables gpus hosts)
    (call : LookupCall w) : restMirror call.outputPlacement hosts = .caller ↔
      OutputOnLastSide tables call := by
  rw [restMirror, OutputOnLastSide, stack.lastOnHost_eq]
  cases hosts with
  | nil => cases call.outputPlacement <;> simp [mirrorFor]
  | cons table others => cases call.outputPlacement <;> simp [mirrorFor]

/-- Whatever the scratch buffers hold, missing keys leave the output untouched exactly if there are
none or the output lies where the last table works. -/
theorem leaves_misses_iff {tables : List (LayerTable w shape)} (accepted : Accepts tables none)
    (call : LookupCall w)
    (fits : (∃ i < call.numKeys, firstRow tables (call.keyMemory .caller i) = none) →
      RowsFit tables call) :
    (∀ memory, LeavesMisses tables { call with outputMemory := memory }) ↔
      ((∃ i < call.numKeys, firstRow tables (call.keyMemory .caller i) = none) →
        OutputOnLastSide tables call) := by
  obtain ⟨gpus, hosts, stack, defaults⟩ := accepted.stack
  -- the row left for a missing key is what the last side's buffer held
  have kept : ∀ memory {result}, lookup tables none { call with outputMemory := memory } =
    some result →
      ∀ i < call.numKeys, firstRow tables (call.keyMemory .caller i) = none → ∀ o < shape.width,
      result.output (i * shape.stride + o) =
        memory (restMirror call.outputPlacement hosts) (i * shape.stride + o) := by
    intro memory result returned i inside missing o within
    obtain ⟨other, same, _, delivered⟩ := stack.lookup { call with outputMemory := memory }
      (Nat.lt_of_le_of_lt (Nat.zero_le i) inside) none defaults
    obtain rfl : result = other := Option.some.inj (returned.symm.trans same)
    have nothing : leftRow gpus hosts none (call.keyMemory .caller i) = none := by
      rw [stack.leftRow_of_masked (masked_of_missing missing) (fun _ => rfl), missing]
      rfl
    have bytes := delivered.rows (stack.scattered (fits ⟨i, inside, missing⟩)) i inside o within
    have unfilled : filling (none : Option (Nat → UInt8)) result.left = none := ite_self _
    rw [unfilled] at bytes
    exact bytes.trans (by rw [nothing]; rfl)
  constructor
  · rintro untouched ⟨i, inside, missing⟩
    rw [← stack.restMirror_caller_iff call]
    -- memory that tells the caller's buffer from the scratch buffers
    let memory : Mirror → Nat → UInt8 := fun mirror _ => if mirror = .caller then 0 else 1
    obtain ⟨result, returned, _⟩ := stack.lookup { call with outputMemory := memory }
      (Nat.lt_of_le_of_lt (Nat.zero_le i) inside) none defaults
    have here := untouched memory result returned i inside missing 0 shape.positive
    rw [kept memory returned i inside missing 0 shape.positive] at here
    by_contra scratch
    simp [memory, scratch] at here
  · intro placed memory result returned i inside missing o within
    have rest := (stack.restMirror_caller_iff call).mpr (placed ⟨i, inside, missing⟩)
    rw [kept memory returned i inside missing o within, rest]

/-- Behind a cache and a map, a row in pageable memory stays for a missing key. -/
theorem leaves_misses_pageable :
    (lookup [cacheOf true [1], mapOf []] none (callOf [1, 2] .unregistered)).isSome = true ∧
      LeavesMisses [cacheOf true [1], mapOf []] (callOf [1, 2] .unregistered) := by
  have placed : OutputOnLastSide [cacheOf true [1], mapOf []] (callOf [1, 2] .unregistered) :=
    .inr rfl
  exact ⟨by decide +kernel, (leaves_misses_iff (accepts_two rfl _) _
    fun _ _ _ => pairRows_fits _).mpr (fun _ => placed) _⟩

/-- On the device the row of the missing key 2 is overwritten with what the scratch buffer held. -/
theorem leaves_misses_fails : Accepts [cacheOf true [1], mapOf []] none ∧
    firstRow [cacheOf true [1], mapOf []] 2 = none ∧
      (callOf [1, 2] .device).outputMemory .caller 2 = 9 ∧
    (lookup [cacheOf true [1], mapOf []] none (callOf [1, 2] .device)).map
      (fun result => result.output 2) = some 7 :=
  ⟨accepts_two rfl _, by decide, by decide, by decide +kernel⟩

end EmbedCache.HierarchicalEmbeddingLayer
