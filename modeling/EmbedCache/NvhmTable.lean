import EmbedCache.StlCalls
import EmbedCache.Lib.KeyValue

/-! `NvhmMapTable`: partitions over maps of the `nvhm` library, which keep one metadata value and
the bytes of a row for each key. Insert and find. -/

namespace EmbedCache.NvhmMapTable

open Lib HostTable Bitmask Function List
open STLContainerTable (Batch FindRequest FindBuffers)

variable {Map Key : Type*} {b : Nat}

structure NvhmMapTableConfig where
  maxValueSize : Nat
  numPartitions : Nat
  partitioner : Partitioner
  maxFindTaskSize : Nat
  overflowPolicy : OverflowPolicyConfig

/-- The calls of `nvhm::map` that the table makes, and what is assumed about the keys they leave.
A lookup brings the raw values, `upsert` takes a counter of keys along. -/
structure NvhmMap (Map Key : Type*) extends KeyValue Map Key (List UInt8) where
  valueAt : Map → Key → BitVec 64
  upsert : Map → Key → Nat → Map × Nat
  setRawValuesAt : Map → Key → Nat → (Nat → UInt8) → Map
  setValueAt : Map → Key → BitVec 64 → Map
  erase : Map → Key → Map
  transformValues : Map → (BitVec 64 → BitVec 64) → Map
  upsert_has : ∀ map key count other,
    (get (upsert map key count).1 other).isSome ↔ other = key ∨ (get map other).isSome
  upsert_count : ∀ map key count,
    (upsert map key count).2 = if (get map key).isSome then count else count + 1
  setRawValuesAt_has : ∀ map key size value other,
    (get (setRawValuesAt map key size value) other).isSome = (get map other).isSome
  setValueAt_has : ∀ map key metadata other,
    (get (setValueAt map key metadata) other).isSome = (get map other).isSome
  erase_has : ∀ map key other,
    (get (erase map key) other).isSome ↔ other ≠ key ∧ (get map other).isSome
  transformValues_has : ∀ map change other,
    (get (transformValues map change) other).isSome = (get map other).isSome

namespace NvhmMap

variable (nvhm : NvhmMap Map Key) (config : NvhmMapTableConfig) (shuffle : Shuffle Key)

def keysMetas (map : Map) : List Key :=
  let keys := shuffle.order (nvhm.keys map)
  match config.overflowPolicy.handler with
  | .evictRandom => keys
  | _ => keys.mergeSort fun a b => (nvhm.valueAt map a).toInt ≤ (nvhm.valueAt map b).toInt

/-- How many keys lie before `end() - resolution_margin`. -/
def evictedCount (map : Map) : Nat := nvhm.size map - config.overflowPolicy.resolution

def evictedKeys (map : Map) : List Key :=
  (nvhm.keysMetas config shuffle map).take (nvhm.evictedCount config map)

def resolveOverflow (map : Map) : Map :=
  let left := (nvhm.evictedKeys config shuffle map).foldl nvhm.erase map
  match config.overflowPolicy.handler with
  | .evictLFU => nvhm.transformValues left fun metadata => metadata.sshiftRight 1
  | _ => left

/-- A write of the metadata, where there is metadata. -/
def setMeta (map : Map) (key : Key) (metadata : BitVec 64) : Map :=
  match config.overflowPolicy.handler with
  | .evictRandom => map
  | _ => nvhm.setValueAt map key metadata

/-- One key of `insert`, on the map and `part_size`. -/
def insert (lruValue : BitVec 64) (valueSize : Nat) (key : Key) (value : Nat → UInt8)
    (part : Map × Nat) : Map × Nat :=
  let upserted := nvhm.upsert part.1 key part.2
  let stored := nvhm.setRawValuesAt upserted.1 key valueSize value
  if upserted.2 = part.2 then (stored, part.2)
  else
    let marked := nvhm.setMeta config stored key (config.overflowPolicy.handler.initial lruValue)
    if upserted.2 < config.overflowPolicy.overflowMargin then (marked, upserted.2)
    else
      let resolved := nvhm.resolveOverflow config shuffle marked
      (resolved, nvhm.size resolved)

def touch (lruTime : BitVec 64) (key : Key) (map : Map) : Map :=
  nvhm.setMeta config map key (config.overflowPolicy.handler.touch lruTime (nvhm.valueAt map key))

variable {nvhm config} {map : Map}

theorem setMeta_has (key : Key) (metadata : BitVec 64) (other : Key) :
    (nvhm.get (nvhm.setMeta config map key metadata) other).isSome =
      (nvhm.get map other).isSome := by
  rw [setMeta]
  split
  · rfl
  · exact nvhm.setValueAt_has map key metadata other

theorem touch_size (lruTime : BitVec 64) (key : Key) :
    nvhm.size (nvhm.touch config lruTime key map) = nvhm.size map :=
  KeyValue.size_congr fun other => by rw [touch, setMeta_has]

/-! ### Overflow -/

variable (shuffle : Shuffle Key)

theorem keysMetas_perm (map : Map) : (nvhm.keysMetas config shuffle map).Perm (nvhm.keys map) := by
  rw [keysMetas]
  split
  · exact shuffle.perm _
  · exact (mergeSort_perm _ _).trans (shuffle.perm _)

theorem eraseMany_has (gone : List Key) (map : Map) (key : Key) :
    (nvhm.get (gone.foldl nvhm.erase map) key).isSome ↔ key ∉ gone ∧ (nvhm.get map key).isSome := by
  induction gone generalizing map with
  | nil => simp
  | cons first rest ih =>
    rw [foldl_cons, ih, nvhm.erase_has, mem_cons]
    tauto

theorem resolveOverflow_has {key : Key} :
    (nvhm.get (nvhm.resolveOverflow config shuffle map) key).isSome ↔
      key ∉ nvhm.evictedKeys config shuffle map ∧ (nvhm.get map key).isSome := by
  rw [← eraseMany_has, resolveOverflow]
  split
  · rw [nvhm.transformValues_has]
  · rfl

theorem size_resolveOverflow (map : Map) :
    nvhm.size (nvhm.resolveOverflow config shuffle map) =
      min (nvhm.size map) config.overflowPolicy.resolution := by
  have all : (nvhm.keysMetas config shuffle map).Perm (nvhm.keys map) := keysMetas_perm shuffle map
  have distinct : (nvhm.evictedKeys config shuffle map).Nodup :=
    (all.nodup_iff.mpr (nvhm.keys_nodup map)).sublist (take_sublist _ _)
  have present : ∀ key ∈ nvhm.evictedKeys config shuffle map, (nvhm.get map key).isSome :=
    fun key member =>
    (nvhm.mem_keys map key).mp (all.mem_iff.mp (mem_of_mem_take member))
  have left := KeyValue.size_of_erased distinct present fun _ => resolveOverflow_has shuffle
  have count : (nvhm.evictedKeys config shuffle map).length = nvhm.evictedCount config map := by
    rw [evictedKeys, length_take, all.length_eq]
    exact min_eq_left (Nat.sub_le _ _)
  rw [count, evictedCount] at left
  omega

/-- Without shuffling, no evicted key has larger metadata than one that stays. -/
theorem resolveOverflow_ranks (ranked : config.overflowPolicy.handler ≠ .evictRandom)
    {key other : Key}
    (present : (nvhm.get map key).isSome)
    (gone : ¬ (nvhm.get (nvhm.resolveOverflow config shuffle map) key).isSome)
    (kept : (nvhm.get (nvhm.resolveOverflow config shuffle map) other).isSome) :
    (nvhm.valueAt map key).toInt ≤ (nvhm.valueAt map other).toInt := by
  obtain ⟨staying, stored⟩ := (resolveOverflow_has shuffle).mp kept
  have evicted : key ∈ nvhm.evictedKeys config shuffle map := by
    by_contra staysToo
    exact gone ((resolveOverflow_has shuffle).mpr ⟨staysToo, present⟩)
  have sorted : nvhm.keysMetas config shuffle map = (shuffle.order (nvhm.keys map)).mergeSort
      fun a b => (nvhm.valueAt map a).toInt ≤ (nvhm.valueAt map b).toInt := by
    rw [keysMetas]
    split
    · rename_i random
      exact absurd random ranked
    · rfl
  have behind :
      other ∈ (nvhm.keysMetas config shuffle map).drop (nvhm.evictedCount config map) := by
    have listed : other ∈ nvhm.keysMetas config shuffle map :=
      (keysMetas_perm shuffle map).mem_iff.mpr ((nvhm.mem_keys map other).mpr stored)
    rw [← take_append_drop (nvhm.evictedCount config map) (nvhm.keysMetas config shuffle map)]
      at listed
    exact (mem_append.mp listed).resolve_left staying
  rw [evictedKeys, sorted] at evicted
  rw [sorted] at behind
  exact rank_take_le_drop (fun key => (nvhm.valueAt map key).toInt) _ _ evicted behind

/-! ### Insert -/

/-- `part_size` is the size of the map, and within the margin. -/
def Steady (nvhm : NvhmMap Map Key) (config : NvhmMapTableConfig) (part : Map × Nat) : Prop :=
  part.2 = nvhm.size part.1 ∧ part.2 ≤ config.overflowPolicy.overflowMargin

theorem insert_steady
    (margins : config.overflowPolicy.resolution ≤ config.overflowPolicy.overflowMargin)
    (lruValue : BitVec 64) (valueSize : Nat) (key : Key) (value : Nat → UInt8) {part : Map × Nat}
    (steady : nvhm.Steady config part) :
    nvhm.Steady config (nvhm.insert config shuffle lruValue valueSize key value part) := by
  have stored : ∀ other, (nvhm.get
      (nvhm.setRawValuesAt (nvhm.upsert part.1 key part.2).1 key valueSize value) other).isSome ↔
        other = key ∨ (nvhm.get part.1 other).isSome := by
    intro other
    rw [nvhm.setRawValuesAt_has]
    exact nvhm.upsert_has part.1 key part.2 other
  have count := nvhm.upsert_count part.1 key part.2
  rw [insert]
  dsimp only
  by_cases held : (nvhm.get part.1 key).isSome
  · rw [if_pos held] at count
    rw [if_pos count]
    refine ⟨steady.1.trans (KeyValue.size_congr fun other => (stored other).trans ?_).symm,
      steady.2⟩
    constructor
    · rintro (rfl | old)
      · exact held
      · exact old
    · exact .inr
  · rw [if_neg held] at count
    rw [if_neg (by omega)]
    split
    · rename_i below
      have fresh : nvhm.get part.1 key = none := Option.not_isSome_iff_eq_none.mp held
      refine ⟨?_, below.le⟩
      refine (count.trans (congrArg (· + 1) steady.1)).trans
        (KeyValue.size_of_added fresh fun other => ?_).symm
      rw [setMeta_has]
      exact stored other
    · refine ⟨rfl, ?_⟩
      rw [size_resolveOverflow]
      exact (min_le_right _ _).trans margins

end NvhmMap

/-! ### Calls -/

structure Setup (Map Key : Type*) where
  map : NvhmMap Map Key
  config : NvhmMapTableConfig
  numPartitions_pos : 0 < config.numPartitions
  hash : Key → BitVec 64

inductive Call (Key : Type*) (b : Nat)
  | insert (batch : Batch Key) (valueSize : Int) (order : List Nat) (lruValue : Nat → BitVec 64)
      (shuffle : Nat → Shuffle Key)
  | find (request : FindRequest Key) (buffers : FindBuffers b) (lruTime : Nat → BitVec 64)
    (order : List Nat)

/-- Partitions and buffers during `find`. -/
structure FindState (Map : Type*) (b : Nat) extends FindBuffers b where
  parts : Nat → Map
  totalNumHits : Nat

namespace Setup

variable (table : Setup Map Key)

def home (key : Key) : Nat :=
  table.config.partitioner.part table.config.numPartitions (table.hash key)

/-- No sum or product of `find_` leaves the range of `int64_t`. -/
def FitsInt64 (b n : Nat) : Prop :=
  n + b - 1 < 2 ^ 63 ∧ maskSize b n + table.config.maxFindTaskSize - 1 < 2 ^ 63 ∧
    table.config.numPartitions *
      ((maskSize b n + table.config.maxFindTaskSize - 1) / table.config.maxFindTaskSize) < 2 ^ 63 ∧
    maskSize b n * (table.config.numPartitions - 1) < 2 ^ 63

instance (b n : Nat) : Decidable (table.FitsInt64 b n) :=
  inferInstanceAs (Decidable (_ ∧ _ ∧ _ ∧ _))

variable (request : FindRequest Key) (lruTime : Nat → BitVec 64)

/-- One position of `find`: a key that is not found yet and is in its partition. -/
def findAt (state : FindState Map b) (q : Nat) : FindState Map b :=
  if q < request.n ∧ (state.hitMask (q / b)).getLsbD (q % b) = false then
    let key := request.keys q
    let p := table.home key
    match table.map.get (state.parts p) key with
    | none => state
    | some row =>
      { hitMask := update state.hitMask (q / b) (state.hitMask (q / b) ||| BitVec.twoPow b (q % b))
        values := if request.withValues
          then blit state.values (q * request.valueStride) table.config.maxValueSize fun i =>
            row.getD i 0
          else state.values
        valueSizes := if request.withValueSizes
          then update state.valueSizes q table.config.maxValueSize else state.valueSizes
        parts := update state.parts p (table.map.touch table.config (lruTime q) key (state.parts p))
        totalNumHits := state.totalNumHits + 1 }
  else state

def rejects : Call Key b → Bool
  | .insert batch valueSize _ _ _ =>
    batch.keys ≠ [] ∧ ¬ (0 ≤ valueSize ∧ valueSize ≤ table.config.maxValueSize)
  | .find request _ _ _ => 0 < request.n ∧ request.valueStride < table.config.maxValueSize

variable (parts : Nat → Map)

/-- A call that does not throw; signed overflow has no defined outcome. -/
def exec (call : Call Key b) : Option (Nat → Map) :=
  if table.rejects call then some parts
  else
    match call with
    | .insert batch valueSize order lruValue shuffle =>
      (executeTasks (fun item => table.home item.1)
        (fun item part => some (table.map.insert table.config (shuffle item.2)
          (lruValue (table.home item.1)) valueSize.toNat item.1 (batch.row item.2) part))
        batch.keys.zipIdx order fun p => (parts p, table.map.size (parts p))).map fun filled p =>
          (filled p).1
    | .find request buffers lruTime order =>
      if request.n = 0 ∨ table.FitsInt64 b request.n then
        some (order.foldl (table.findAt request lruTime) ⟨buffers, parts, 0⟩).parts
      else none

def runCalls : (Nat → Map) → List (Call Key b) → Option (Nat → Map)
  | parts, [] => some parts
  | parts, call :: rest => (table.exec parts call).bind fun parts => runCalls parts rest

/-- All tasks of `insert` run once. -/
def Scheduled : Call Key b → Prop
  | .insert _ _ order _ _ => order.Perm (List.range table.config.numPartitions)
  | .find _ _ _ _ => True

def Contained (call : Call Key b) : Prop :=
  match call with
  | .insert _ _ _ _ _ => True
  | .find request _ _ _ => request.n = 0 ∨ table.FitsInt64 b request.n ∨ table.rejects call

def Bounded : Prop :=
  ∀ p, table.map.size (parts p) ≤ table.config.overflowPolicy.overflowMargin

variable {table} {parts : Nat → Map}

theorem findAt_size (state : FindState Map b) (q p : Nat) :
    table.map.size ((table.findAt request lruTime state q).parts p) =
      table.map.size (state.parts p) := by
  rw [findAt]
  split
  · dsimp only
    split
    · rfl
    · change table.map.size (update state.parts _ _ p) = _
      by_cases here : p = table.home (request.keys q)
      · rw [here, update_self]
        exact NvhmMap.touch_size _ _
      · rw [update_of_ne here]
  · rfl

theorem find_size (order : List Nat) (state : FindState Map b) (p : Nat) :
    table.map.size ((order.foldl (table.findAt request lruTime) state).parts p) =
      table.map.size (state.parts p) := by
  induction order generalizing state with
  | nil => rfl
  | cons q rest ih => rw [foldl_cons, ih, findAt_size]

theorem execute_eq_sweep {σ : Type*} {order : List Nat}
    (all : order.Perm (range table.config.numPartitions))
    (one : Key × Nat → σ → Option σ) (items : List (Key × Nat)) (parts : Nat → σ) :
    executeTasks (fun item => table.home item.1) one items order parts =
      sweep (fun item => table.home item.1) one items parts := by
  apply executeTasks_eq_sweep (all.nodup_iff.mpr nodup_range)
  intro item _
  exact all.mem_iff.mpr (mem_range.mpr (Partitioner.part_lt _ table.numPartitions_pos _))

theorem exec_completes {call : Call Key b} (scheduled : table.Scheduled call)
    (contained : table.Contained call) :
    (table.exec parts call).isSome := by
  unfold exec
  split
  · rfl
  · rename_i accepted
    cases call with
    | insert batch valueSize order lruValue shuffle =>
      dsimp only
      rw [execute_eq_sweep scheduled, Option.isSome_map]
      obtain ⟨after, swept⟩ := sweep_total batch.keys.zipIdx fun p =>
        (parts p, table.map.size (parts p))
      rw [swept]
      rfl
    | find request buffers lruTime order =>
      dsimp only
      rw [if_pos]
      · rfl
      · rcases contained with nothing | fits | rejected
        · exact .inl nothing
        · exact .inr fits
        · exact absurd rejected accepted

variable
  (margins : table.config.overflowPolicy.resolution ≤ table.config.overflowPolicy.overflowMargin)

include margins

theorem exec_bounded {call : Call Key b} (scheduled : table.Scheduled call)
    (bounded : table.Bounded parts)
    {after : Nat → Map} (executed : table.exec parts call = some after) : table.Bounded after := by
  unfold exec at executed
  split at executed
  · rw [← Option.some.inj executed]
    exact bounded
  · cases call with
    | insert batch valueSize order lruValue shuffle =>
      obtain ⟨filled, ran, same⟩ := Option.map_eq_some_iff.mp executed
      rw [execute_eq_sweep scheduled] at ran
      have steady : ∀ p, table.map.Steady table.config (filled p) := by
        refine sweep_preserves (fun filled => ∀ p, table.map.Steady table.config (filled p)) ?_ ran
          fun p => ⟨rfl, bounded p⟩
        intro item _ filled part steady inserted p
        rw [← Option.some.inj inserted]
        by_cases here : p = table.home item.1
        · rw [here, update_self]
          exact NvhmMap.insert_steady _ margins _ _ _ _ (steady _)
        · rw [update_of_ne here]
          exact steady p
      intro p
      rw [← same, ← (steady p).1]
      exact (steady p).2
    | find request buffers lruTime order =>
      dsimp only at executed
      split at executed
      · rw [← Option.some.inj executed]
        intro p
        rw [find_size]
        exact bounded p
      · cases executed

theorem runCalls_bounded {calls : List (Call Key b)}
    (scheduled : ∀ call ∈ calls, table.Scheduled call)
    (bounded : table.Bounded parts) :
    (∀ after, table.runCalls parts calls = some after → table.Bounded after) ∧
      ((∀ call ∈ calls, table.Contained call) → (table.runCalls parts calls).isSome) := by
  induction calls generalizing parts with
  | nil =>
    refine ⟨fun after ran => ?_, fun _ => rfl⟩
    rw [← Option.some.inj ran]
    exact bounded
  | cons call rest ih =>
    have later := fun call member => scheduled call (mem_cons_of_mem _ member)
    constructor
    · intro after ran
      obtain ⟨next, executed, ranRest⟩ := Option.bind_eq_some_iff.mp ran
      exact (ih later (exec_bounded margins (scheduled call mem_cons_self) bounded executed)).1
        after ranRest
    · intro contained
      obtain ⟨next, executed⟩ := Option.isSome_iff_exists.mp
        (exec_completes (scheduled call mem_cons_self) (contained call mem_cons_self))
      rw [runCalls, executed, Option.bind_some]
      refine (ih later ?_).2 fun call member => contained call (mem_cons_of_mem _ member)
      exact exec_bounded margins (scheduled call mem_cons_self) bounded executed

end Setup

end EmbedCache.NvhmMapTable
