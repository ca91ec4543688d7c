import EmbedCache.StlFindExact

/-! Calls of `STLContainerTable`, and what they do to the rows of the table.

The rows are seen as a map from keys. `CallEffect` says what a call does to that map, whatever the
order in which its partitions are worked off. -/

namespace EmbedCache.STLContainerTable

open Lib HostTable Bitmask Function Option

variable {Key : Type*} [DecidableEq Key] {b : Nat}

structure Setup (Key : Type*) (b : Nat) where
  config : STLContainerTableConfig
  checked : config.Checked
  wide : 0 < b
  narrow : b ≤ 64
  hash : Key → BitVec 64
  add : Arithmetic

structure Batch (Key : Type*) where
  keys : List Key
  valueStride : Nat
  values : Nat → UInt8

def Batch.row (batch : Batch Key) (i : Nat) :
    Nat → UInt8 := fun a => batch.values (i * batch.valueStride + a)

inductive Call (Key : Type*) (b : Nat)
  | insert (batch : Batch Key) (valueSize : Int) (order : List Nat) (lruValue : Nat → BitVec 64)
      (shuffle : Nat → Shuffle (Key × Slot))
  | update (batch : Batch Key) (valueSize : Int) (order : List Nat)
  | updateAccumulate (batch : Batch Key) (updateSize : Int) (updateDtype : DataTypeT)
    (order : List Nat)
  | erase (keys : List Key) (order : List Nat)
  | clear (order : List Nat)
  | find (request : FindRequest Key) (buffers : FindBuffers b) (lruTime : Nat → BitVec 64)
    (schedule : List Nat)

def Call.inserted : Call Key b → List Key
  | .insert batch _ _ _ _ => batch.keys
  | _ => []

inductive Outcome (b : Nat)
  | returned
  | threw
  | found (buffers : FindBuffers b) (numHits : Int)

namespace Setup

variable (table : Setup Key b)

def home (key : Key) : Nat := STLContainerTable.home table.config table.hash key

omit [DecidableEq Key] in
theorem home_lt (key : Key) : table.home key < table.config.numPartitions :=
  Partitioner.part_lt _ table.checked.numPartitions_pos _

def rejects : Call Key b → Bool
  | .insert batch valueSize _ _ _ => batch.keys ≠ [] ∧
    ¬ (0 ≤ valueSize ∧ valueSize ≤ table.config.maxValueSize)
  | .update batch valueSize _ => batch.keys ≠ [] ∧
    ¬ (0 ≤ valueSize ∧ valueSize ≤ table.config.maxValueSize)
  | .updateAccumulate batch updateSize updateDtype _ =>
    batch.keys ≠ [] ∧
      ¬ (updateSize ≤ table.config.maxValueSize ∧ table.config.valueDtype.accumulates ∧
      updateDtype.accumulates)
  | .find request _ _ _ =>
    0 < request.n ∧ request.n + b - 1 < 2 ^ 63 ∧ request.valueStride < table.config.maxValueSize
  | _ => false

def execute (one : Key × Nat → Partition Key → Option (Partition Key)) (keys : List Key)
    (order : List Nat)
    (parts : Nat → Partition Key) : Option (Nat → Partition Key) :=
  executeTasks (fun item => table.home item.1) one keys.zipIdx order parts

variable (parts : Nat → Partition Key)

def exec (call : Call Key b) : Option ((Nat → Partition Key) × Outcome b) :=
  if table.rejects call then some (parts, .threw)
  else
    match call with
    | .insert batch valueSize order lruValue shuffle =>
      (table.execute (fun item part =>
        part.insert table.config (shuffle item.2) (lruValue (table.home item.1))
        valueSize.toNat item.1 (batch.row item.2)) batch.keys order parts).map fun parts =>
          (parts, .returned)
    | .update batch valueSize order =>
      (table.execute (fun item part => some (part.update valueSize.toNat item.1 (batch.row item.2)))
        batch.keys order parts).map fun parts => (parts, .returned)
    | .updateAccumulate batch updateSize updateDtype order =>
      (table.execute (fun item part =>
        some (part.updateAccumulate table.config table.add updateDtype updateSize item.1
        (batch.row item.2))) batch.keys order parts).map fun parts => (parts, .returned)
    | .erase keys order =>
      (table.execute (fun item part => some (part.erase item.1)) keys order parts).map fun parts =>
        (parts, .returned)
    | .clear order =>
      some (order.foldl (fun parts task => Function.update parts task Partition.empty) parts,
        .returned)
    | .find request buffers lruTime schedule =>
      (STLContainerTable.find table.checked table.wide table.hash request lruTime schedule
        buffers parts).map
        fun after => (after.parts, .found after.toFindBuffers after.totalNumHits)

def runCalls : (Nat → Partition Key) → List (Call Key b) →
    Option ((Nat → Partition Key) × List (Outcome b))
  | parts, [] => some (parts, [])
  | parts, call :: rest =>
    match table.exec parts call with
    | none => none
    | some (next, outcome) => (runCalls next rest).map fun ended => (ended.1, outcome :: ended.2)

/-- `size`, with the partitions counted in any order. -/
def size (order : List Nat) (parts : Nat → Partition Key) : Nat :=
  (order.map fun p => (parts p).size).sum

def contents (key : Key) : Option (List UInt8) :=
  stored table.config table.hash parts key

def WellFormed : Prop := ∀ p, (parts p).WellFormed table.config table.home p

/-- All tasks run once, and those of `find` until they are done. -/
def Scheduled : Call Key b → Prop
  | .insert _ _ order _ _ => order.Perm (List.range table.config.numPartitions)
  | .update _ _ order => order.Perm (List.range table.config.numPartitions)
  | .updateAccumulate _ _ _ order => order.Perm (List.range table.config.numPartitions)
  | .erase _ order => order.Perm (List.range table.config.numPartitions)
  | .clear order => order.Perm (List.range table.config.numPartitions)
  | .find request _ _ schedule => FairSchedule table.config b request.n schedule

/-- Updates write no further than the row, and `find` stays within `int64_t`. -/
def Contained (call : Call Key b) : Prop :=
  match call with
  | .updateAccumulate _ updateSize updateDtype _ =>
    elementCount updateDtype updateSize * table.config.valueDtype.size ≤ table.config.maxValueSize
  | .find request _ _ _ =>
    request.n = 0 ∨ FitsInt64 table.config b request.n ∨ table.rejects call
  | _ => True

/-! ### Effects -/

def changeRow (change : List UInt8 → List UInt8) (key : Key) (rows : Key → Option (List UInt8)) :
    Key → Option (List UInt8) :=
  Function.update rows key ((rows key).map change)

def Overflows (rows : Key → Option (List UInt8)) (p : Nat) : Prop :=
  table.config.overflowPolicy.overflowMargin ≤ Set.ncard {key | table.home key = p ∧
    (rows key).isSome}

/-- Keys of an overflowing partition may be dropped, and only those. -/
def Drops (p : Nat) (rows kept : Key → Option (List UInt8)) : Prop :=
  kept = rows ∨
    (table.Overflows rows p ∧ ∀ key, kept key = rows key ∨ (table.home key = p ∧ kept key = none))

/-- One key of `insert`: the front of its row is replaced, or it gets a row with that front. -/
inductive Inserted (size : Nat) (key : Key) (value : Nat → UInt8)
    (before after : Key → Option (List UInt8)) : Prop
  | replaced {row : List UInt8} (present : before key = some row)
      (rows : after = Function.update before key (some (patch size value row)))
  | added (absent : before key = none) (kept : Key → Option (List UInt8))
    (drops : table.Drops (table.home key) before kept)
      (garbage : List UInt8) (length : garbage.length = table.config.maxValueSize)
      (rows : after = Function.update kept key (some (patch size value garbage)))

def CallEffect (before : Key → Option (List UInt8)) (call : Call Key b) (outcome : Outcome b)
    (after : Key → Option (List UInt8)) : Prop :=
  if table.rejects call then outcome = .threw ∧ after = before
  else
    match call with
    | .insert batch valueSize _ _ _ => outcome = .returned ∧
        Run (fun before (item : Key × Nat) after =>
          table.Inserted valueSize.toNat item.1 (batch.row item.2) before after) before
            batch.keys.zipIdx after
    | .update batch valueSize _ => outcome = .returned ∧
        after = batch.keys.zipIdx.foldl
          (fun rows item => changeRow (patch valueSize.toNat (batch.row item.2)) item.1 rows)
          before
    | .updateAccumulate batch updateSize updateDtype _ => outcome = .returned ∧
        after = batch.keys.zipIdx.foldl (fun rows item => changeRow
          (accumulated table.add table.config.valueDtype updateDtype updateSize (batch.row item.2))
            item.1 rows) before
    | .erase keys _ => outcome = .returned ∧
      after = keys.foldl (fun rows key => Function.update rows key none) before
    | .clear _ => outcome = .returned ∧ after = fun _ => none
    | .find request buffers _ _ => after = before ∧
      ∃ result numHits, outcome = .found result numHits ∧
        FindExact table.config before request buffers result numHits

section Proofs

variable {table} {parts : Nat → Partition Key} {order : List Nat}

omit [DecidableEq Key] in
theorem execute_eq_sweep (all : order.Perm (List.range table.config.numPartitions))
    (one : Key × Nat → Partition Key → Option (Partition Key)) (keys : List Key)
    (parts : Nat → Partition Key) :
    table.execute one keys order parts =
      sweep (fun item => table.home item.1) one keys.zipIdx parts := by
  apply executeTasks_eq_sweep (all.nodup_iff.mpr List.nodup_range)
  intro item _
  exact all.mem_iff.mpr (List.mem_range.mpr (table.home_lt item.1))

theorem contents_update (p : Nat) (part : Partition Key) (key : Key) :
    table.contents (update parts p part) key =
      if table.home key = p then part.get table.config key else table.contents parts key := by
  change (update parts p part (table.home key)).get table.config key = _
  split
  · rename_i here
    rw [here, update_self]
  · rename_i elsewhere
    rw [update_of_ne elsewhere]
    rfl

variable {part : Partition Key}

theorem contents_update_key {key : Key} {row : Option (List UInt8)}
    (changed : part.get table.config = update ((parts (table.home key)).get table.config) key row) :
    table.contents (update parts (table.home key) part) =
      update (table.contents parts) key row := by
  funext other
  rw [contents_update, changed]
  by_cases same : other = key
  · subst same
    rw [if_pos rfl, update_self, update_self]
  · rw [update_of_ne same, update_of_ne same]
    split
    · rename_i here
      rw [← here]
      rfl
    · rfl

variable (formed : table.WellFormed parts)

include formed in
omit [DecidableEq Key] in
theorem WellFormed.update {p : Nat}
    (partFormed : part.WellFormed table.config table.home p) :
      table.WellFormed (update parts p part) := by
  intro other
  by_cases same : other = p
  · rw [same, update_self]
    exact partFormed
  · rw [update_of_ne same]
    exact formed other

theorem contents_isSome (key : Key) :
    (table.contents parts key).isSome = true ↔ key ∈ (parts (table.home key)).slotMap := by
  change (((parts (table.home key)).slotMap.lookup key).map _).isSome = true ↔ _
  rw [isSome_map, AList.lookup_isSome]

include formed in
theorem mem_slotMap_iff {p : Nat} {key : Key} :
    key ∈ (parts p).slotMap ↔ table.home key = p ∧ (table.contents parts key).isSome := by
  rw [contents_isSome]
  constructor
  · intro member
    have here := (formed p).homed key member
    exact ⟨here, here.symm ▸ member⟩
  · rintro ⟨rfl, member⟩
    exact member

include formed in
theorem ncard_home (p : Nat) :
    Set.ncard {key | table.home key = p ∧ (table.contents parts key).isSome} = (parts p).size := by
  have members : {key | table.home key = p ∧ (table.contents parts key).isSome} =
      ((parts p).slotMap.keys.toFinset : Set Key) := by
    ext key
    rw [Set.mem_ofPred_eq, List.coe_toFinset, ← mem_slotMap_iff formed]
    rfl
  rw [members, Set.ncard_coe_finset, List.toFinset_card_of_nodup (parts p).slotMap.keys_nodup,
    Partition.size]
  exact List.length_map _

include formed in
theorem inserted_of_effect {size : Nat} {key : Key} {value : Nat → UInt8}
    (effect : Partition.InsertEffect table.config size key value (parts (table.home key)) part) :
    table.Inserted size key value (table.contents parts)
      (table.contents (update parts (table.home key) part)) := by
  cases effect with
  | replaced present _ rows => exact .replaced present (contents_update_key rows)
  | added absent dropped garbage overflow length _ rows =>
    refine .added absent
      (fun other => if table.home other = table.home key ∧ other ∈ dropped then none
        else table.contents parts other)
      ?_ garbage length ?_
    · rcases overflow with nothing | full
      · left
        funext other
        rw [nothing, if_neg fun both => List.not_mem_nil both.2]
      · right
        refine ⟨?_, fun other => ?_⟩
        · rw [Overflows, ncard_home formed]
          exact full
        · by_cases evicted : table.home other = table.home key ∧ other ∈ dropped
          · exact .inr ⟨evicted.1, if_pos evicted⟩
          · exact .inl (if_neg evicted)
    · funext other
      rw [contents_update, rows]
      by_cases same : other = key
      · subst same
        rw [if_pos rfl, update_self, update_self]
      · rw [update_of_ne same, update_of_ne same]
        by_cases here : table.home other = table.home key
        · rw [if_pos here]
          simp only [here, true_and]
          split
          · rfl
          · rw [← here]
            rfl
        · rw [if_neg here, if_neg fun both => here both.1]

include formed in
/-- A modify call whose steps on one key are changes of the row of that key. -/
theorem execute_change
    (all : order.Perm (List.range table.config.numPartitions)) (keys : List Key)
    (one : Key × Nat → Partition Key → Partition Key)
    (change : (Key → Option (List UInt8)) → Key × Nat → Key → Option (List UInt8))
    (step : ∀ item ∈ keys.zipIdx, ∀ parts, table.WellFormed parts →
      (one item (parts (table.home item.1))).WellFormed table.config table.home
        (table.home item.1) ∧
        table.contents (update parts (table.home item.1) (one item (parts (table.home item.1)))) =
          change (table.contents parts) item) :
    ∃ parts', table.execute (fun item part => some (one item part)) keys order parts = some parts' ∧
      table.WellFormed parts' ∧ table.contents parts' =
        keys.zipIdx.foldl change (table.contents parts) := by
  have simulated : ∃ parts', sweep (fun item => table.home item.1)
      (fun item part => some (one item part)) keys.zipIdx
      parts = some parts' ∧ table.WellFormed parts' ∧
      Run (fun before item after => after = change before item) (table.contents parts) keys.zipIdx
        (table.contents parts') := by
    apply sweep_simulates _ formed
    intro item member parts formed
    obtain ⟨partFormed, changed⟩ := step item member parts formed
    exact ⟨_, rfl, formed.update partFormed, changed⟩
  obtain ⟨parts', swept, done, run⟩ := simulated
  refine ⟨parts', ?_, done, run.eq_foldl⟩
  rw [execute_eq_sweep all]
  exact swept

omit [DecidableEq Key] in
theorem cleared (order : List Nat) (parts : Nat → Partition Key) (p : Nat) :
    order.foldl (fun parts task => update parts task Partition.empty) parts p =
      if p ∈ order then Partition.empty else parts p := by
  induction order generalizing parts with
  | nil => rfl
  | cons task rest ih =>
    rw [List.foldl_cons, ih]
    by_cases same : p = task
    · subst same
      simp
    · rw [update_of_ne same]
      simp [same]

omit [DecidableEq Key] in
theorem keys_ne_nil {keys : List Key} {item : Key × Nat} (member : item ∈ keys.zipIdx) :
    keys ≠ [] := by
  rintro rfl
  rw [List.zipIdx_nil] at member
  exact List.not_mem_nil member

variable {batch : Batch Key} {valueSize : Int} {shuffle : Nat → Shuffle (Key × Slot)}

omit [DecidableEq Key] in
theorem rejects_insert_false {lruValue : Nat → BitVec 64}
    (accepted : table.rejects (.insert batch valueSize order lruValue shuffle) = false)
    (listed : batch.keys ≠ []) :
    valueSize.toNat ≤ table.config.maxValueSize := by
  simp only [rejects, decide_eq_false_iff_not, not_and] at accepted
  have bounds := accepted listed
  omega

omit [DecidableEq Key] in
theorem rejects_update_false
    (accepted : table.rejects (.update batch valueSize order) = false) (listed : batch.keys ≠ []) :
    valueSize.toNat ≤ table.config.maxValueSize := by
  simp only [rejects, decide_eq_false_iff_not, not_and] at accepted
  have bounds := accepted listed
  omega

omit [DecidableEq Key] in
theorem find_allowed {request : FindRequest Key} {buffers : FindBuffers b}
    {lruTime : Nat → BitVec 64} {schedule : List Nat}
    (accepted : table.rejects (.find request buffers lruTime schedule) = false)
    (contained : table.Contained (.find request buffers lruTime schedule)) :
    request.n = 0 ∨
      (table.config.maxValueSize ≤ request.valueStride ∧ FitsInt64 table.config b request.n) := by
  rcases contained with nothing | fits | rejected
  · exact .inl nothing
  · simp only [rejects, decide_eq_false_iff_not, not_and, not_lt] at accepted
    rcases Nat.eq_zero_or_pos request.n with nothing | some_keys
    · exact .inl nothing
    · exact .inr ⟨accepted some_keys fits.1, fits⟩
  · exact absurd (rejected.symm.trans accepted) (by decide)

include formed in
theorem exec_find (request : FindRequest Key) (buffers : FindBuffers b)
    (lruTime : Nat → BitVec 64) {schedule : List Nat}
    (fair : FairSchedule table.config b request.n schedule)
    (allowed : request.n = 0 ∨
      (table.config.maxValueSize ≤ request.valueStride ∧ FitsInt64 table.config b request.n)) :
    ∃ parts' result numHits,
      table.exec parts (.find request buffers lruTime schedule) =
        some (parts', .found result numHits) ∧
      table.WellFormed parts' ∧ table.contents parts' = table.contents parts ∧
      FindExact table.config (table.contents parts) request buffers result numHits := by
  have accepted : ¬ table.rejects (.find request buffers lruTime schedule) = true := by
    rw [rejects, decide_eq_true_iff]
    omega
  obtain ⟨after, ended, isExact, _, same⟩ :=
    @find_exact _ _ _ _ _ _ buffers _ table.checked table.wide formed lruTime
    _ fair allowed
  refine ⟨after.parts, after.toFindBuffers, after.totalNumHits, ?_,
    fun p => (same p).wellFormed (formed p), ?_, isExact⟩
  · unfold exec
    rw [if_neg accepted]
    dsimp only
    rw [ended, map_some]
  · funext key
    exact congrFun ((same (table.home key)).get (formed (table.home key))) key

section Executed

variable (all : order.Perm (List.range table.config.numPartitions))

include formed all

theorem execute_insert (shuffle : Nat → Shuffle (Key × Slot)) (lruValue : Nat → BitVec 64)
    (fits : batch.keys ≠ [] → 0 < table.config.slotsPerBuffer)
    (inside : batch.keys ≠ [] → valueSize.toNat ≤ table.config.maxValueSize) :
    ∃ parts', table.execute (fun item part =>
      part.insert table.config (shuffle item.2) (lruValue (table.home item.1))
        valueSize.toNat item.1 (batch.row item.2)) batch.keys order parts = some parts' ∧
      table.WellFormed parts' ∧
      Run (fun before (item : Key × Nat) after =>
        table.Inserted valueSize.toNat item.1 (batch.row item.2) before after)
        (table.contents parts) batch.keys.zipIdx (table.contents parts') := by
  rw [execute_eq_sweep all]
  apply sweep_simulates _ formed
  intro item member parts formed
  have listed := keys_ne_nil member
  obtain ⟨part, inserted, partFormed, effect⟩ :=
    Partition.insert_spec (shuffle item.2) table.checked (fits listed)
    (formed (table.home item.1)) (lruValue (table.home item.1)) (inside listed) rfl
      (batch.row item.2)
  exact ⟨part, inserted, formed.update partFormed, inserted_of_effect formed effect⟩

theorem execute_update (inside : batch.keys ≠ [] → valueSize.toNat ≤ table.config.maxValueSize) :
    ∃ parts', table.execute (fun item part =>
      some (part.update valueSize.toNat item.1 (batch.row item.2)))
        batch.keys order parts = some parts' ∧ table.WellFormed parts' ∧
      table.contents parts' = batch.keys.zipIdx.foldl
        (fun rows item => changeRow (patch valueSize.toNat (batch.row item.2)) item.1 rows)
          (table.contents parts) := by
  apply execute_change formed all
  intro item member parts formed
  refine ⟨(formed _).update valueSize.toNat item.1 (batch.row item.2), contents_update_key ?_⟩
  exact Partition.get_update table.checked (formed _) (inside (keys_ne_nil member)) item.1
    (batch.row item.2)

theorem execute_updateAccumulate {updateDtype : DataTypeT} {updateSize : Int}
    (contained : elementCount updateDtype updateSize * table.config.valueDtype.size ≤
      table.config.maxValueSize) :
    ∃ parts', table.execute (fun item part =>
      some (part.updateAccumulate table.config table.add updateDtype updateSize
        item.1 (batch.row item.2))) batch.keys order parts = some parts' ∧ table.WellFormed parts' ∧
      table.contents parts' = batch.keys.zipIdx.foldl (fun rows item => changeRow
        (accumulated table.add table.config.valueDtype updateDtype updateSize (batch.row item.2))
          item.1 rows)
        (table.contents parts) := by
  apply execute_change formed all
  intro item _ parts formed
  refine ⟨(formed _).updateAccumulate table.add updateDtype updateSize item.1 (batch.row item.2),
    contents_update_key ?_⟩
  exact Partition.get_updateAccumulate table.checked (formed _) table.add contained item.1
    (batch.row item.2)

theorem execute_erase (keys : List Key) :
    ∃ parts', table.execute (fun item part => some (part.erase item.1)) keys order parts =
      some parts' ∧
      table.WellFormed parts' ∧
      table.contents parts' = keys.foldl (fun rows key => update rows key none)
        (table.contents parts) := by
  obtain ⟨parts', executed, done, rows⟩ :=
    execute_change formed all keys (fun item part => part.erase item.1)
    (fun rows item => update rows item.1 none)
    (fun item _ parts formed =>
      ⟨(formed _).erase item.1, contents_update_key (Partition.get_erase _ item.1)⟩)
  refine ⟨parts', executed, done, rows.trans ?_⟩
  conv_rhs => rw [← List.zipIdx_map_fst 0 keys, List.foldl_map]

theorem clear_effect :
    table.WellFormed (order.foldl (fun parts task => update parts task Partition.empty) parts) ∧
    table.contents (order.foldl (fun parts task => update parts task Partition.empty) parts) =
      fun _ => none := by
  constructor
  · intro p
    rw [cleared]
    split
    · exact .empty
    · exact formed p
  · funext key
    have member : table.home key ∈ order := all.mem_iff.mpr (List.mem_range.mpr (table.home_lt key))
    change (order.foldl _ parts (table.home key)).get table.config key = none
    rw [cleared, if_pos member]
    rfl

end Executed

include formed in
/-- Every call that is contained comes to an end, keeps the partitions well formed and has its
effect on the rows. -/
theorem exec_effect {call : Call Key b}
    (fits : call.inserted ≠ [] → 0 < table.config.slotsPerBuffer) (scheduled : table.Scheduled call)
    (contained : table.Contained call) :
    ∃ parts' outcome, table.exec parts call = some (parts', outcome) ∧ table.WellFormed parts' ∧
      table.CallEffect (table.contents parts) call outcome (table.contents parts') := by
  unfold exec CallEffect
  by_cases rejected : table.rejects call = true
  · simp only [if_pos rejected]
    exact ⟨parts, .threw, rfl, formed, rfl, rfl⟩
  · have accepted : table.rejects call = false := by simpa using rejected
    simp only [if_neg rejected]
    cases call with
    | insert batch valueSize order lruValue shuffle =>
      obtain ⟨parts', executed, done, run⟩ :=
        execute_insert formed scheduled shuffle lruValue fits (rejects_insert_false accepted)
      exact ⟨parts', .returned, by dsimp only; rw [executed, map_some], done, rfl, run⟩
    | update batch valueSize order =>
      obtain ⟨parts', executed, done, rows⟩ :=
        execute_update formed scheduled (rejects_update_false accepted)
      exact ⟨parts', .returned, by dsimp only; rw [executed, map_some], done, rfl, rows⟩
    | updateAccumulate batch updateSize updateDtype order =>
      obtain ⟨parts', executed, done, rows⟩ := execute_updateAccumulate formed scheduled contained
      exact ⟨parts', .returned, by dsimp only; rw [executed, map_some], done, rfl, rows⟩
    | erase keys order =>
      obtain ⟨parts', executed, done, rows⟩ := execute_erase formed scheduled keys
      exact ⟨parts', .returned, by dsimp only; rw [executed, map_some], done, rfl, rows⟩
    | clear order =>
      obtain ⟨done, rows⟩ := clear_effect formed scheduled
      exact ⟨_, .returned, rfl, done, rfl, rows⟩
    | find request buffers lruTime schedule =>
      obtain ⟨parts', result, numHits, executed, done, same, isExact⟩ :=
        exec_find formed request buffers lruTime scheduled
        (find_allowed accepted contained)
      unfold exec at executed
      rw [if_neg rejected] at executed
      exact ⟨parts', .found result numHits, executed, done, same, result, numHits, rfl, isExact⟩

include formed in
theorem slots_of_exec_insert {lruValue : Nat → BitVec 64}
    {ended : (Nat → Partition Key) × Outcome b}
    (all : order.Perm (List.range table.config.numPartitions))
    (listed : batch.keys ≠ [])
    (accepted : ¬ table.rejects (.insert batch valueSize order lruValue shuffle) = true)
    (executed : table.exec parts (.insert batch valueSize order lruValue shuffle) = some ended) :
    0 < table.config.slotsPerBuffer := by
  unfold exec at executed
  rw [if_neg accepted] at executed
  obtain ⟨parts', ran, -⟩ := map_eq_some_iff.mp executed
  rw [execute_eq_sweep all] at ran
  cases keys : batch.keys with
  | nil => exact absurd keys listed
  | cons key rest =>
    rw [keys, List.zipIdx_cons, sweep] at ran
    obtain ⟨part, inserted, -⟩ := bind_eq_some_iff.mp ran
    exact Partition.slots_of_insert _ table.checked (formed _) inserted

include formed in
theorem effect_of_exec {call : Call Key b} (scheduled : table.Scheduled call)
    (contained : table.Contained call) {parts' : Nat → Partition Key} {outcome : Outcome b}
    (executed : table.exec parts call = some (parts', outcome)) :
    table.WellFormed parts' ∧
      table.CallEffect (table.contents parts) call outcome (table.contents parts') := by
  by_cases rejected : table.rejects call = true
  · unfold exec at executed
    rw [if_pos rejected, some_inj, Prod.mk.injEq] at executed
    unfold CallEffect
    rw [if_pos rejected, ← executed.1, ← executed.2]
    exact ⟨formed, rfl, rfl⟩
  · have fits : call.inserted ≠ [] → 0 < table.config.slotsPerBuffer := by
      intro listed
      cases call with
      | insert => exact slots_of_exec_insert formed scheduled listed rejected executed
      | _ => exact absurd rfl listed
    obtain ⟨_, _, completed, done, effect⟩ := exec_effect formed fits scheduled contained
    rw [executed, some_inj, Prod.mk.injEq] at completed
    rw [completed.1, completed.2]
    exact ⟨done, effect⟩

variable {calls : List (Call Key b)}

/-- A run comes to an end and follows a run of an abstract step relation, if every call follows a
step of it. -/
theorem runCalls_simulates {allowed : Call Key b → Prop}
    (step : (Key → Option (List UInt8)) → Call Key b × Outcome b →
      (Key → Option (List UInt8)) → Prop)
    (each : ∀ parts call, table.WellFormed parts → allowed call →
      ∃ parts' outcome, table.exec parts call = some (parts', outcome) ∧ table.WellFormed parts' ∧
        step (table.contents parts) (call, outcome) (table.contents parts'))
    (formed : table.WellFormed parts) (all : ∀ call ∈ calls, allowed call) :
    ∃ parts' outcomes, table.runCalls parts calls = some (parts', outcomes) ∧
      table.WellFormed parts' ∧
      outcomes.length = calls.length ∧
        Run step (table.contents parts) (calls.zip outcomes) (table.contents parts') := by
  induction calls generalizing parts with
  | nil => exact ⟨parts, [], rfl, formed, rfl, .done _⟩
  | cons call rest ih =>
    obtain ⟨next, outcome, executed, nextFormed, taken⟩ :=
      each parts call formed (all call List.mem_cons_self)
    obtain ⟨parts', outcomes, ran, done, length, run⟩ :=
      ih nextFormed fun later member => all later (List.mem_cons_of_mem _ member)
    refine ⟨parts', outcome :: outcomes, ?_, done, ?_, ?_⟩
    · rw [runCalls, executed]
      dsimp only
      rw [ran, map_some]
    · rw [List.length_cons, List.length_cons, length]
    · rw [List.zip_cons_cons]
      exact .step taken run

theorem runCalls_completes (fits : table.config.slotStride ≤ table.config.allocationRate)
    (formed : table.WellFormed parts)
    (all : ∀ call ∈ calls, table.Scheduled call ∧ table.Contained call) :
    (table.runCalls parts calls).isSome := by
  have each (parts : Nat → Partition Key) (call : Call Key b) (formed : table.WellFormed parts)
      (good : table.Scheduled call ∧ table.Contained call) :
      ∃ parts' outcome, table.exec parts call = some (parts', outcome) ∧ table.WellFormed parts' ∧
        table.CallEffect (table.contents parts) call outcome (table.contents parts') :=
    exec_effect formed (fun _ => Nat.div_pos fits table.checked.slotStride_pos) good.1 good.2
  obtain ⟨parts', outcomes, ran, -⟩ := runCalls_simulates
    (fun before event after => table.CallEffect before event.1 event.2 after) each formed all
  exact isSome_of_eq_some ran

theorem run_of_runCalls {ended : Nat → Partition Key} {outcomes : List (Outcome b)}
    (ran : table.runCalls parts calls = some (ended, outcomes)) :
    Run (fun before call after => ∃ outcome, table.exec before call = some (after, outcome)) parts
      calls ended := by
  induction calls generalizing parts outcomes with
  | nil =>
    rw [runCalls, some_inj, Prod.mk.injEq] at ran
    rw [ran.1]
    exact .done ended
  | cons call rest ih =>
    rw [runCalls] at ran
    split at ran
    · exact absurd ran (some_ne_none _).symm
    · rename_i next outcome executed
      obtain ⟨⟨last, later⟩, ranRest, same⟩ := map_eq_some_iff.mp ran
      obtain ⟨rfl, rfl⟩ := Prod.mk.inj same
      exact .step ⟨outcome, executed⟩ (ih ranRest)

end Proofs

end Setup

end EmbedCache.STLContainerTable
