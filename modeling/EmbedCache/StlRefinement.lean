import EmbedCache.StlCalls

/-! `STLContainerTable` as a finite map from which `insert` may drop keys.

`MapStep` is the map: calls that carry whole rows are steps of it, and every run of the table
follows a run of it. -/

namespace EmbedCache.STLContainerTable

open Lib HostTable Bitmask Finset Function Option

variable {Key : Type*} [DecidableEq Key] {b : Nat}

namespace Setup

variable (table : Setup Key b)

/-- Calls with `value_size` or `update_size` equal to `max_value_size`. -/
def WholeRows : Call Key b → Prop
  | .insert _ valueSize _ _ _ => valueSize = table.config.maxValueSize
  | .update _ valueSize _ => valueSize = table.config.maxValueSize
  | .updateAccumulate _ updateSize _ _ => updateSize = table.config.maxValueSize
  | _ => True

/-- A key gets a row. Keys of its partition may be dropped if it is new and they are too many. -/
def Put (key : Key) (row : List UInt8) (before after : Key → Option (List UInt8)) : Prop :=
  ∃ kept, table.Drops (table.home key) before kept ∧ ((before key).isSome → kept = before) ∧
    after = Function.update kept key (some row)

def newRow (batch : Batch Key) (i : Nat) : List UInt8 :=
  readRange (batch.row i) 0 table.config.maxValueSize

def MapStep (before : Key → Option (List UInt8)) (event : Call Key b × Outcome b)
    (after : Key → Option (List UInt8)) :
    Prop :=
  match event with
  | (.insert batch _ _ _ _, outcome) => outcome = .returned ∧
      Run (fun before (item : Key × Nat) after =>
        table.Put item.1 (table.newRow batch item.2) before after)
        before batch.keys.zipIdx after
  | (.update batch _ _, outcome) => outcome = .returned ∧
      after = batch.keys.zipIdx.foldl (fun rows item =>
        changeRow (fun _ => table.newRow batch item.2) item.1 rows) before
  | (call, outcome) => table.CallEffect before call outcome after

def oneKey (key : Key) : FindRequest Key := ⟨1, fun _ => key, table.config.maxValueSize, true, true⟩

/-- `find` would hit the key, whatever the schedule. -/
def WouldHit (parts : Nat → Partition Key) (key : Key) : Prop :=
  ∀ (buffers : FindBuffers b) (lruTime : Nat → BitVec 64) (schedule : List Nat),
    buffers.hitMask 0 = 0 →
    FairSchedule table.config b 1 schedule →
    ∃ parts' result, table.exec parts (.find (table.oneKey key) buffers lruTime schedule) =
      some (parts', .found result 1)

structure Sound (parts : Nat → Partition Key) : Prop where
  homed : ∀ p, ∀ key ∈ (parts p).slotMap, table.home key = p
  slots : ∀ p, (parts p).pool.slots.Perm (Partition.allocated table.config (parts p).slotBuffers)
  once : ∀ p, (parts p).pool.slots.Nodup
  disjoint : ∀ p key other slot place, (parts p).slotMap.lookup key = some slot →
    (parts p).slotMap.lookup other = some place → key ≠ other → slot.buffer = place.buffer →
    slot.off + table.config.slotSize ≤ place.off ∨ place.off + table.config.slotSize ≤ slot.off
  finite : {key | table.WouldHit parts key}.Finite
  size : ∀ order : List Nat, order.Perm (List.range table.config.numPartitions) →
    Setup.size order parts = Set.ncard {key | table.WouldHit parts key}

section Proofs

variable {table} {parts : Nat → Partition Key}

/-! ### Whole rows -/

def FullWidth (table : Setup Key b) (rows : Key → Option (List UInt8)) : Prop :=
  ∀ key row, rows key = some row → row.length = table.config.maxValueSize

theorem contents_fullWidth (parts : Nat → Partition Key) :
    table.FullWidth (table.contents parts) := by
  intro key row present
  obtain ⟨slot, -, rfl⟩ := map_eq_some_iff.mp present
  exact readRange_length _ _ _

variable {rows : Key → Option (List UInt8)}

theorem FullWidth.update (full : table.FullWidth rows) (key : Key) {row : List UInt8}
    (length : row.length = table.config.maxValueSize) :
      table.FullWidth (update rows key (some row)) := by
  intro other found present
  by_cases same : other = key
  · rw [same, update_self] at present
    rw [← some.inj present, length]
  · rw [update_of_ne same] at present
    exact full other found present

omit [DecidableEq Key] in
theorem Drops.fullWidth {p : Nat} {rows kept : Key → Option (List UInt8)}
    (drops : table.Drops p rows kept)
    (full : table.FullWidth rows) : table.FullWidth kept := by
  rcases drops with same | ⟨-, each⟩
  · rw [same]
    exact full
  · intro key row present
    rcases each key with same | ⟨-, gone⟩
    · exact full key row (same ▸ present)
    · rw [gone] at present
      exact absurd present (some_ne_none _).symm

variable {before after : Key → Option (List UInt8)}

theorem Inserted.put {key : Key} {value : Nat → UInt8}
    (full : table.FullWidth before)
    (inserted : table.Inserted table.config.maxValueSize key value before after) :
    table.Put key (readRange value 0 table.config.maxValueSize) before after ∧
      table.FullWidth after := by
  cases inserted with
  | @replaced row present rows =>
    rw [patch_full value (full key row present)] at rows
    refine ⟨⟨before, .inl rfl, fun _ => rfl, rows⟩, ?_⟩
    rw [rows]
    exact full.update key (readRange_length _ _ _)
  | added absent kept drops garbage length rows =>
    rw [patch_full value length] at rows
    refine ⟨⟨kept, drops, ?_, rows⟩, ?_⟩
    · intro present
      rw [absent] at present
      exact absurd present (by decide)
    · rw [rows]
      exact (drops.fullWidth full).update key (readRange_length _ _ _)

variable {batch : Batch Key}

theorem changeRow_fullWidth (full : table.FullWidth rows) (key : Key)
    {row : List UInt8} (length : row.length = table.config.maxValueSize) :
    table.FullWidth (changeRow (fun _ => row) key rows) := by
  rw [changeRow]
  cases present : rows key with
  | none =>
    rw [map_none, ← present, update_eq_self]
    exact full
  | some _ =>
    rw [map_some]
    exact full.update key length

omit [DecidableEq Key] in
theorem whole_accepted {valueSize : Int} (whole : valueSize = table.config.maxValueSize) :
    ¬ (batch.keys ≠ [] ∧ ¬ (0 ≤ valueSize ∧ valueSize ≤ table.config.maxValueSize)) := by
  rintro ⟨-, outside⟩
  omega

/-- A call with whole rows that has its effect on the rows is a step of the map. -/
theorem CallEffect.mapStep {call : Call Key b} {outcome : Outcome b}
    (effect : table.CallEffect before call outcome after) (full : table.FullWidth before)
    (whole : table.WholeRows call) :
    table.MapStep before (call, outcome) after := by
  cases call with
  | insert batch valueSize order lruValue shuffle =>
    have accepted : ¬ table.rejects (.insert batch valueSize order lruValue shuffle) = true := by
      rw [rejects, decide_eq_true_iff]
      exact whole_accepted whole
    unfold CallEffect at effect
    rw [if_neg accepted, whole] at effect
    obtain ⟨listed, run⟩ := effect
    refine ⟨listed, ?_⟩
    clear accepted
    generalize batch.keys.zipIdx = items at run ⊢
    induction run with
    | done rows => exact .done rows
    | step taken _ ih =>
      obtain ⟨put, next⟩ := Inserted.put full taken
      exact .step put (ih next)
  | update batch valueSize order =>
    have accepted : ¬ table.rejects (.update batch valueSize order) = true := by
      rw [rejects, decide_eq_true_iff]
      exact whole_accepted whole
    unfold CallEffect at effect
    rw [if_neg accepted, whole] at effect
    refine ⟨effect.1, effect.2.trans ?_⟩
    clear effect accepted
    rw [Int.toNat_natCast]
    generalize batch.keys.zipIdx = items
    induction items generalizing before with
    | nil => rfl
    | cons item rest ih =>
      have row : changeRow (patch table.config.maxValueSize (batch.row item.2)) item.1 before =
          changeRow (fun _ => table.newRow batch item.2) item.1 before := by
        rw [changeRow, changeRow]
        cases present : before item.1 with
        | none => rfl
        | some old => rw [map_some, map_some, patch_full _ (full item.1 old present)]; rfl
      rw [List.foldl_cons, List.foldl_cons, row]
      exact ih (changeRow_fullWidth full item.1 (readRange_length _ _ _))
  | updateAccumulate batch updateSize updateDtype order => exact effect
  | erase keys order => exact effect
  | clear order => exact effect
  | find request buffers lruTime schedule => exact effect

/-! ### Keys that `find` would hit -/

omit [DecidableEq Key] in
theorem fits_one (table : Setup Key b) : FitsInt64 table.config b 1 := by
  have word : maskSize b 1 = 1 := by
    rw [maskSize, Nat.add_sub_cancel_left]
    exact Nat.div_self table.wide
  have tasks : numTasksPerPart table.config b 1 = 1 := by
    rw [numTasksPerPart, word, Nat.add_sub_cancel_left]
    exact Nat.div_self table.checked.maxFindTaskSize_pos
  obtain ⟨e, small, power⟩ := table.checked.numPartitions_pow
  have partitions : table.config.numPartitions < 2 ^ 63 := by
    calc table.config.numPartitions = 2 ^ e := power
      _ ≤ 2 ^ 62 := Nat.pow_le_pow_right (by decide) small
      _ < 2 ^ 63 := by decide
  have narrow := table.narrow
  have limit := table.checked.maxFindTaskSize_lt
  rw [FitsInt64, word, tasks]
  omega

section

variable (formed : table.WellFormed parts)

include formed

theorem find_one (key : Key) (buffers : FindBuffers b) (lruTime : Nat → BitVec 64)
    {schedule : List Nat} (fresh : buffers.hitMask 0 = 0)
    (fair : FairSchedule table.config b 1 schedule) :
    ∃ parts' result, table.exec parts (.find (table.oneKey key) buffers lruTime schedule) =
      some (parts', .found result (if (table.contents parts key).isSome then 1 else 0)) := by
  have request : (table.oneKey key).n = 1 := rfl
  obtain ⟨parts', result, numHits, executed, -, -, isExact⟩ :=
    exec_find formed (table.oneKey key) buffers lruTime fair
    (.inr ⟨le_refl _, table.fits_one⟩)
  refine ⟨parts', result, ?_⟩
  rw [executed, isExact.count, request, range_one, filter_singleton]
  have first : NewHit (table.contents parts) (table.oneKey key) buffers 0 ↔
      (table.contents parts key).isSome = true := by
    rw [NewHit, Nat.zero_div, fresh]
    exact ⟨fun hit => hit.2.2, fun present => ⟨Nat.one_pos, BitVec.getLsbD_zero, present⟩⟩
  by_cases present : (table.contents parts key).isSome = true
  · rw [if_pos (first.mpr present), if_pos present]
    rfl
  · rw [if_neg (mt first.mp present), if_neg present]
    rfl

theorem wouldHit_iff {key : Key} :
    table.WouldHit parts key ↔ (table.contents parts key).isSome := by
  constructor
  · intro hit
    by_contra absent
    have fair := fairSchedule_rounds table.config b 1
    obtain ⟨_, _, counted⟩ := hit ⟨fun _ => 0, fun _ => 0, fun _ => 0⟩ (fun _ => 0) _ rfl fair
    obtain ⟨_, _, missed⟩ :=
      find_one formed key ⟨fun _ => 0, fun _ => 0, fun _ => 0⟩ (fun _ => 0) rfl fair
    rw [if_neg absent, counted] at missed
    cases missed
  · intro present buffers lruTime schedule fresh fair
    have ended := find_one formed key buffers lruTime fresh fair
    rw [if_pos present] at ended
    exact ended

theorem hit_keys :
    {key | table.WouldHit parts key} =
      ((Finset.range table.config.numPartitions).biUnion fun p =>
        (parts p).slotMap.keys.toFinset : Finset Key) := by
  ext key
  rw [Set.mem_ofPred_eq, wouldHit_iff formed, contents_isSome, mem_coe, mem_biUnion]
  constructor
  · intro member
    exact ⟨table.home key, mem_range.mpr (table.home_lt key), List.mem_toFinset.mpr member⟩
  · rintro ⟨p, -, member⟩
    have stored : key ∈ (parts p).slotMap := List.mem_toFinset.mp member
    rw [(formed p).homed key stored]
    exact stored

theorem size_eq_ncard {order : List Nat}
    (all : order.Perm (List.range table.config.numPartitions)) :
    Setup.size order parts = Set.ncard {key | table.WouldHit parts key} := by
  rw [hit_keys formed, Set.ncard_coe_finset, card_biUnion]
  · calc Setup.size order parts
        = ((List.range table.config.numPartitions).map fun p => (parts p).size).sum :=
          (all.map _).sum_eq
      _ = ∑ p ∈ Finset.range table.config.numPartitions, (parts p).size := rfl
      _ = ∑ p ∈ Finset.range table.config.numPartitions, (parts p).slotMap.keys.toFinset.card := by
        apply sum_congr rfl
        intro p _
        rw [List.toFinset_card_of_nodup (parts p).slotMap.keys_nodup, Partition.size]
        exact (List.length_map _).symm
  · intro p _ other _ different
    rw [onFun, disjoint_left]
    intro key here there
    apply different
    rw [← (formed p).homed key (List.mem_toFinset.mp here),
      (formed other).homed key (List.mem_toFinset.mp there)]

theorem WellFormed.sound : table.Sound parts where
  homed := fun p => (formed p).homed
  slots := fun p => (formed p).slots
  once := fun p => (formed p).slots_nodup table.checked
  disjoint := by
    intro p key other slot place found foundOther different sameBuffer
    have distinct : slot ≠ place := by
      rintro rfl
      exact different
        (SlotPool.held_injective ((formed p).slots_nodup table.checked) found foundOther)
    have inside := table.checked.slotSize_le_slotStride
    have apart :=
      Partition.allocated_apart ((formed p).held_allocated found)
        ((formed p).held_allocated foundOther)
      distinct sameBuffer
    omega
  finite := by
    rw [hit_keys formed]
    exact finite_toSet _
  size := fun _ all => size_eq_ncard formed all

end

omit [DecidableEq Key] in
theorem wellFormed_empty : table.WellFormed fun _ => Partition.empty := fun _ => .empty

end Proofs

/-- Every run of calls with whole rows that stay in their slots, from the empty table, comes to an
end and is a run of the finite map; then keys and slots are as they should be. -/
theorem runs_refine_map (fits : table.config.slotStride ≤ table.config.allocationRate)
    (calls : List (Call Key b))
    (whole : ∀ call ∈ calls, table.Scheduled call ∧ table.WholeRows call ∧ table.Contained call) :
    ∃ parts outcomes, table.runCalls (fun _ => .empty) calls = some (parts, outcomes) ∧
      outcomes.length = calls.length ∧
      Run table.MapStep (fun _ => none) (calls.zip outcomes) (table.contents parts) ∧
        table.Sound parts := by
  obtain ⟨parts, outcomes, ran, formed, length, run⟩ := runCalls_simulates table.MapStep
    (fun parts call formed good => by
      obtain ⟨scheduled, whole, contained⟩ := good
      obtain ⟨parts', outcome, executed, done, effect⟩ := exec_effect formed
        (fun _ => Nat.div_pos fits table.checked.slotStride_pos) scheduled contained
      exact ⟨parts', outcome, executed, done, effect.mapStep (contents_fullWidth parts) whole⟩)
    wellFormed_empty whole
  exact ⟨parts, outcomes, ran, length, run, formed.sound⟩

end Setup

def floatSum : Arithmetic := fun _ _ element _ i =>
  if element = [0, 0, 0, 0] then [0, 0, 0x80, 0x3F].getD i 0 else element.getD i 0

theorem word_pos : 0 < 64 := by decide

def floatTable (policy : OverflowPolicyConfig) : Setup Nat 64 where
  config := floatConfig 128 policy
  checked := floatConfig_checked (by decide) (by decide) policy
  wide := word_pos
  narrow := by decide
  hash := BitVec.ofNat 64
  add := floatSum

def insertAll (keys : List Nat) (valueSize : Int) (byte : UInt8) : Call Nat 64 :=
  .insert ⟨keys, 4, fun _ => byte⟩ valueSize [0] (fun _ => 0) fun _ => .given

/-- `1.0` of an update type is added at all elements of one row. -/
def addOnes (key : Nat) (updateDtype : DataTypeT) (ones : Nat → UInt8) : Call Nat 64 :=
  .updateAccumulate ⟨[key], 4, ones⟩ 4 updateDtype [0]

def halves : Nat → UInt8 := fun a => if a % 2 = 1 then 0x3C else 0

def singles : Nat → UInt8 := fun a => if a % 4 = 2 then 0x80 else if a % 4 = 3 then 0x3F else 0

theorem runs_refine_map_float :
    ∃ parts outcomes, (floatTable unlimited).runCalls (fun _ => .empty)
        [insertAll [1, 2] 4 0, addOnes 1 .float32 singles, .erase [2] [0]] =
          some (parts, outcomes) ∧
      outcomes.length = 3 ∧
      Run (floatTable unlimited).MapStep (fun _ => none)
        ([insertAll [1, 2] 4 0, addOnes 1 .float32 singles, .erase [2] [0]].zip outcomes)
        ((floatTable unlimited).contents parts) ∧
      (floatTable unlimited).Sound parts := by
  apply Setup.runs_refine_map
  · change (4 + 0 + 4 - 1) / 4 * 4 ≤ 64
    decide
  · intro call listed
    have order : [0].Perm (List.range 1) := List.Perm.refl _
    rcases List.mem_cons.mp listed with rfl | later
    · exact ⟨order, rfl, trivial⟩
    · rcases List.mem_cons.mp later with rfl | last
      · exact ⟨order, rfl, (by decide : elementCount .float32 4 * 4 ≤ 4)⟩
      · rw [List.mem_singleton.mp last]
        exact ⟨order, trivial, trivial⟩

/-- Two halves are added to the one element of key 1; the second sum goes to the row of key 2. -/
theorem narrow_update_overruns :
    (floatTable unlimited).Scheduled (addOnes 1 .float16 halves) ∧
    (floatTable unlimited).WholeRows (addOnes 1 .float16 halves) ∧
    ∃ before after, (floatTable unlimited).runCalls (fun _ => .empty) [insertAll [1, 2] 4 0] =
      some (before, [.returned]) ∧
      (floatTable unlimited).exec before (addOnes 1 .float16 halves) = some (after, .returned) ∧
      (floatTable unlimited).contents before 2 = some [0, 0, 0, 0] ∧
      (floatTable unlimited).contents after 2 = some [0, 0, 0x80, 0x3F] ∧
      ¬ (floatTable unlimited).MapStep ((floatTable unlimited).contents before)
        (addOnes 1 .float16 halves, .returned)
        ((floatTable unlimited).contents after) := by
  refine ⟨List.Perm.refl _, rfl, ?_⟩
  refine ⟨_, _, rfl, rfl, by decide, by decide, ?_⟩
  rintro ⟨-, rows⟩
  have same := congrFun rows 2
  revert same
  decide

end EmbedCache.STLContainerTable
