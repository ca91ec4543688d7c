import EmbedCache.StlRefinement
import EmbedCache.NvhmTable

/-! Overflow policies of `STLContainerTable` and `NvhmMapTable`: the size of a partition, and which
keys go.

The first makes room before a new key is stored, the second after it. -/

namespace EmbedCache.STLContainerTable

open Lib HostTable Bitmask Option

variable {Key : Type*} [DecidableEq Key] {b : Nat}

namespace Partition

variable {config : STLContainerTableConfig} {part : Partition Key} (shuffle : Shuffle (Key × Slot))

theorem mem_resolveOverflow {key : Key} :
    key ∈ (part.resolveOverflow config shuffle).slotMap ↔
      key ∉ part.evictedKeys config shuffle ∧ key ∈ part.slotMap := by
  have pool : (part.resolveOverflow config shuffle).pool =
      part.pool.releaseMany ((part.keysSlots config shuffle).take (part.evictedCount config)) := by
    rw [resolveOverflow]
    split
    · apply List.foldlRecOn (motive := fun after : Partition Key => after.pool = _)
      · rfl
      · exact fun _ same _ _ => same
    · rfl
  have map : (part.resolveOverflow config shuffle).slotMap =
      (part.evictedKeys config shuffle).foldl (fun map key => map.erase key) part.slotMap := by
    rw [slotMap, pool]
    exact SlotPool.releaseMany_held _
  rw [← AList.lookup_isSome, ← AList.lookup_isSome, map, lookup_eraseMany]
  split
  · rename_i evicted
    simp [evicted]
  · rename_i kept
    simp [kept]

omit [DecidableEq Key] in
theorem keysSlots_ranks (ranked : config.overflowPolicy.handler ≠ .evictRandom) {mid : Nat}
    {early late : Key × Slot}
    (front : early ∈ (part.keysSlots config shuffle).take mid)
    (behind : late ∈ (part.keysSlots config shuffle).drop mid) :
    (part.metadata config early.2).toInt ≤ (part.metadata config late.2).toInt := by
  have sorted : part.keysSlots config shuffle =
      (shuffle.order (part.slotMap.entries.map fun entry => (entry.1, entry.2))).mergeSort
        fun a b => (part.metadata config a.2).toInt ≤ (part.metadata config b.2).toInt := by
    rw [keysSlots]
    split
    · rename_i random
      exact absurd random ranked
    · rfl
  rw [sorted] at front behind
  exact rank_take_le_drop (fun entry : Key × Slot => (part.metadata config entry.2).toInt) _ _
    front behind

/-- Without shuffling, no evicted key has larger metadata than one that stays. -/
theorem resolveOverflow_ranks (ranked : config.overflowPolicy.handler ≠ .evictRandom)
    {key other : Key} {slot place : Slot}
    (found : part.slotMap.lookup key = some slot)
    (foundOther : part.slotMap.lookup other = some place)
    (gone : key ∉ (part.resolveOverflow config shuffle).slotMap)
    (kept : other ∈ (part.resolveOverflow config shuffle).slotMap) :
    (part.metadata config slot).toInt ≤ (part.metadata config place).toInt := by
  obtain ⟨staying, stored⟩ := (mem_resolveOverflow shuffle).mp kept
  have evicted : key ∈ part.evictedKeys config shuffle := by
    by_contra staysToo
    exact gone
      ((mem_resolveOverflow shuffle).mpr
      ⟨staysToo, AList.lookup_isSome.mp (isSome_of_eq_some found)⟩)
  -- the entries of the two keys, before and behind the margin
  obtain ⟨entry, front, named⟩ := List.mem_map.mp evicted
  have slotOf := keysSlots_found shuffle (List.mem_of_mem_take front)
  rw [named, found, some_inj] at slotOf
  have listed : (other, place) ∈ part.keysSlots config shuffle := by
    apply (keysSlots_perm shuffle part).mem_iff.mpr
    exact List.mem_map.mpr ⟨⟨other, place⟩, AList.mem_lookup_iff.mp foundOther, rfl⟩
  have behind :
      (other, place) ∈ (part.keysSlots config shuffle).drop (part.evictedCount config) := by
    rw [← List.take_append_drop (part.evictedCount config) (part.keysSlots config shuffle),
      List.mem_append] at listed
    exact listed.resolve_left fun inFront => staying (List.mem_map.mpr ⟨_, inFront, rfl⟩)
  have ranks := keysSlots_ranks shuffle ranked front behind
  rw [← slotOf] at ranks
  exact ranks

end Partition

namespace Setup

variable (table : Setup Key b)

def Bounded (parts : Nat → Partition Key) : Prop :=
  ∀ p, (parts p).size ≤ table.config.overflowPolicy.overflowMargin

def InsertOrFind : Call Key b → Prop
  | .insert _ _ _ _ _ => True
  | .find _ _ _ _ => True
  | _ => False

variable {table} {parts : Nat → Partition Key}

section

variable
  (margins : table.config.overflowPolicy.resolution < table.config.overflowPolicy.overflowMargin)

include margins

variable {after : Nat → Partition Key}

theorem exec_bounded {call : Call Key b} (kind : InsertOrFind call)
    (scheduled : table.Scheduled call)
    {outcome : Outcome b} (executed : table.exec parts call = some (after, outcome))
    (kept : table.WellFormed parts ∧ table.Bounded parts) :
      table.WellFormed after ∧ table.Bounded after := by
  unfold exec at executed
  by_cases rejected : table.rejects call = true
  · rw [if_pos rejected, some_inj, Prod.mk.injEq] at executed
    rw [← executed.1]
    exact kept
  · rw [if_neg rejected] at executed
    have accepted : table.rejects call = false := by simpa using rejected
    cases call with
    | insert batch valueSize order lruValue shuffle =>
      obtain ⟨swept, ran, same⟩ := map_eq_some_iff.mp executed
      rw [← (Prod.mk.inj same).1]
      rw [execute_eq_sweep scheduled] at ran
      refine sweep_preserves (fun parts => table.WellFormed parts ∧ table.Bounded parts) ?_ ran kept
      rintro item member parts part ⟨formed, bounded⟩ inserted
      have slots := Partition.slots_of_insert _ table.checked (formed _) inserted
      obtain ⟨result, insertedResult, resultFormed, effect⟩ :=
        Partition.insert_spec (shuffle item.2) table.checked slots
        (formed (table.home item.1)) (lruValue (table.home item.1))
          (rejects_insert_false accepted (keys_ne_nil member)) rfl
        (batch.row item.2)
      obtain rfl := some.inj (inserted.symm.trans insertedResult)
      refine ⟨formed.update resultFormed, fun p => ?_⟩
      by_cases here : p = table.home item.1
      · rw [here, Function.update_self]
        have within := bounded (table.home item.1)
        cases effect with
        | replaced _ sizes _ => exact sizes.trans_le within
        | added _ _ _ _ _ sizes _ =>
          rw [sizes]
          split
          · have least :=
              min_le_right (parts (table.home item.1)).size table.config.overflowPolicy.resolution
            omega
          · omega
      · rw [Function.update_of_ne here]
        exact bounded p
    | find request buffers lruTime schedule =>
      obtain ⟨ended, found, same⟩ := map_eq_some_iff.mp executed
      have passed := found
      rw [STLContainerTable.find] at passed
      have allowed : request.n = 0 ∨
          (table.config.maxValueSize ≤ request.valueStride ∧
          FitsInt64 table.config b request.n) := by
        split at passed
        · split at passed
          · cases passed
          · rename_i allowed
            rw [not_or, not_lt, not_not] at allowed
            exact .inr allowed
        · exact .inl (Nat.eq_zero_of_not_pos ‹_›)
      obtain ⟨other, foundOther, -, -, rows⟩ :=
        @find_exact _ _ _ _ _ _ buffers _ table.checked table.wide kept.1 lruTime _
        scheduled allowed
      obtain rfl := some.inj (found.symm.trans foundOther)
      rw [← (Prod.mk.inj same).1]
      refine ⟨fun p => (rows p).wellFormed (kept.1 p), fun p => ?_⟩
      have map : (ended.parts p).slotMap = (parts p).slotMap := congrArg SlotPool.held (rows p).pool
      rw [Partition.size, map]
      exact kept.2 p
    | update batch valueSize order => exact absurd kind id
    | updateAccumulate batch updateSize updateDtype order => exact absurd kind id
    | erase keys order => exact absurd kind id
    | clear order => exact absurd kind id

theorem runCalls_bounded {calls : List (Call Key b)}
    (all : ∀ call ∈ calls, InsertOrFind call ∧ table.Scheduled call)
    {outcomes : List (Outcome b)} (ran : table.runCalls parts calls = some (after, outcomes))
    (kept : table.WellFormed parts ∧ table.Bounded parts) :
      table.WellFormed after ∧ table.Bounded after := by
  refine (run_of_runCalls ran).invariant_of_mem
    (fun parts => table.WellFormed parts ∧ table.Bounded parts) ?_ kept
  rintro call member before next ⟨outcome, executed⟩ kept
  obtain ⟨kind, scheduled⟩ := all call member
  exact exec_bounded margins kind scheduled executed kept

end

end Setup

end EmbedCache.STLContainerTable

namespace EmbedCache.HostTable

open STLContainerTable

variable {Key : Type*} [DecidableEq Key] {b : Nat}

/-- With margins far enough apart, every run of inserts and finds leaves the partitions of both
tables within the overflow margin; a run of contained calls comes to an end, and evictions by rank
take the lowest. -/
theorem overflow_policy_bounds {Map : Type*} (stl : STLContainerTable.Setup Key b)
    (nvhm : NvhmMapTable.Setup Map Key)
    (stlMargins : stl.config.overflowPolicy.resolution < stl.config.overflowPolicy.overflowMargin)
    (nvhmMargins : nvhm.config.overflowPolicy.resolution ≤
      nvhm.config.overflowPolicy.overflowMargin) :
    (∀ calls : List (STLContainerTable.Call Key b),
      (∀ call ∈ calls, Setup.InsertOrFind call ∧ stl.Scheduled call) →
      (∀ parts outcomes, stl.runCalls (fun _ => .empty) calls = some (parts, outcomes) →
        stl.Bounded parts) ∧
      (stl.config.slotStride ≤ stl.config.allocationRate → (∀ call ∈ calls, stl.Contained call) →
        (stl.runCalls (fun _ => .empty) calls).isSome)) ∧
    (∀ start, (∀ p, nvhm.map.size (start p) = 0) →
      ∀ calls : List (NvhmMapTable.Call Key b), (∀ call ∈ calls, nvhm.Scheduled call) →
      (∀ parts, nvhm.runCalls start calls = some parts → nvhm.Bounded parts) ∧
      ((∀ call ∈ calls, nvhm.Contained call) → (nvhm.runCalls start calls).isSome)) ∧
    (stl.config.overflowPolicy.handler ≠ .evictRandom → ∀ (part : STLContainerTable.Partition Key)
      (shuffle : Shuffle (Key × Slot)) (evicted survivor : Key) (slot place : Slot),
      part.slotMap.lookup evicted = some slot → part.slotMap.lookup survivor = some place →
      evicted ∉ (part.resolveOverflow stl.config shuffle).slotMap →
      survivor ∈ (part.resolveOverflow stl.config shuffle).slotMap →
      (part.metadata stl.config slot).toInt ≤ (part.metadata stl.config place).toInt) ∧
    (nvhm.config.overflowPolicy.handler ≠ .evictRandom → ∀ (map : Map) (shuffle : Shuffle Key)
      (evicted survivor : Key), (nvhm.map.get map evicted).isSome →
      ¬ (nvhm.map.get (nvhm.map.resolveOverflow nvhm.config shuffle map) evicted).isSome →
      (nvhm.map.get (nvhm.map.resolveOverflow nvhm.config shuffle map) survivor).isSome →
      (nvhm.map.valueAt map evicted).toInt ≤ (nvhm.map.valueAt map survivor).toInt) := by
  refine ⟨fun calls all => ⟨?_, ?_⟩, ?_, ?_, ?_⟩
  · intro parts outcomes ran
    have start : stl.Bounded fun _ => .empty := fun _ => Nat.zero_le _
    exact (Setup.runCalls_bounded stlMargins all ran ⟨Setup.wellFormed_empty, start⟩).2
  · intro fits contained
    exact Setup.runCalls_completes fits Setup.wellFormed_empty fun call member =>
      ⟨(all call member).2, contained call member⟩
  · intro start empty calls all
    exact NvhmMapTable.Setup.runCalls_bounded nvhmMargins all fun p =>
      (empty p).trans_le (Nat.zero_le _)
  · intro ranked part shuffle evicted survivor slot place found foundOther gone kept
    exact STLContainerTable.Partition.resolveOverflow_ranks shuffle ranked found
      foundOther gone kept
  · intro ranked map shuffle evicted survivor present gone kept
    exact NvhmMapTable.NvhmMap.resolveOverflow_ranks shuffle ranked present gone kept

def keepOne : OverflowPolicyConfig := .keepingOne .evictLRU

def keepAll : OverflowPolicyConfig := ⟨2, .evictRandom, 1, by norm_num, by norm_num⟩

/-- Rows of four bytes in an association list, and metadata for all keys. -/
abbrev ListedMap := (AList fun _ : Nat => List UInt8) × (Nat → BitVec 64)

namespace ListedMap

def upsert (map : ListedMap) (key count : Nat) : ListedMap × Nat :=
  if (map.1.lookup key).isSome then (map, count)
  else ((map.1.insert key (List.replicate 4 0), map.2), count + 1)

def setRawValuesAt (map : ListedMap) (key size : Nat) (value : Nat → UInt8) : ListedMap :=
  match map.1.lookup key with
  | none => map
  | some row => (map.1.insert key (patch size value row), map.2)

theorem insert_has (map : AList fun _ : Nat => List UInt8) (key : Nat) (row : List UInt8)
    (other : Nat) :
    ((map.insert key row).lookup other).isSome ↔ other = key ∨ (map.lookup other).isSome := by
  rw [AList.lookup_isSome, AList.mem_insert, AList.lookup_isSome]

theorem upsert_has (map : ListedMap) (key count other : Nat) :
    ((upsert map key count).1.1.lookup other).isSome ↔ other = key ∨
      (map.1.lookup other).isSome := by
  rw [upsert]
  split
  · rename_i held
    exact ⟨.inr, fun either => either.elim (fun same => same ▸ held) id⟩
  · exact insert_has _ _ _ _

theorem upsert_count (map : ListedMap) (key count : Nat) :
    (upsert map key count).2 = if (map.1.lookup key).isSome then count else count + 1 := by
  rw [upsert]
  split <;> rfl

theorem setRawValuesAt_has (map : ListedMap) (key size : Nat) (value : Nat → UInt8) (other : Nat) :
    ((setRawValuesAt map key size value).1.lookup other).isSome = (map.1.lookup other).isSome := by
  rw [setRawValuesAt]
  split
  · rfl
  · rename_i row held
    rw [Bool.eq_iff_iff, insert_has]
    exact ⟨fun either => either.elim (fun same => by rw [same, held]; rfl) id, .inr⟩

theorem erase_has (map : ListedMap) (key other : Nat) :
    ((map.1.erase key).lookup other).isSome ↔ other ≠ key ∧ (map.1.lookup other).isSome := by
  rw [AList.lookup_isSome, AList.mem_erase, AList.lookup_isSome]

theorem mem_keys (map : ListedMap) (key : Nat) : key ∈ map.1.keys ↔ (map.1.lookup key).isSome :=
  AList.lookup_isSome.symm

def nvhm : NvhmMapTable.NvhmMap ListedMap Nat where
  get map key := map.1.lookup key
  keys map := map.1.keys
  keys_nodup map := map.1.keys_nodup
  mem_keys := mem_keys
  valueAt map key := map.2 key
  upsert := upsert
  setRawValuesAt := setRawValuesAt
  setValueAt map key metadata := (map.1, Function.update map.2 key metadata)
  erase map key := (map.1.erase key, map.2)
  transformValues map change := (map.1, fun key => change (map.2 key))
  upsert_has := upsert_has
  upsert_count := upsert_count
  setRawValuesAt_has := setRawValuesAt_has
  setValueAt_has _ _ _ _ := rfl
  erase_has := erase_has
  transformValues_has _ _ _ := rfl

end ListedMap

def nvhmTable (policy : OverflowPolicyConfig) : NvhmMapTable.Setup ListedMap Nat :=
  ⟨ListedMap.nvhm, ⟨4, 1, .alwaysZero, 128, policy⟩, Nat.one_pos, BitVec.ofNat 64⟩

def nvhmInsert (keys : List Nat) : NvhmMapTable.Call Nat 64 :=
  .insert ⟨keys, 4, fun _ => 0⟩ 4 [0] (fun _ => 0) fun _ => .given

theorem overflow_policy_bounds_three_keys :
    (∃ parts outcomes, (floatTable keepOne).runCalls (fun _ => .empty) [insertAll [1, 2, 3] 4 0] =
      some (parts, outcomes) ∧
      (floatTable keepOne).Bounded parts) ∧
    ∃ parts, (nvhmTable keepAll).runCalls (fun _ => (∅, fun _ => 0)) [nvhmInsert [1, 2, 3]] =
      some parts ∧
      (nvhmTable keepAll).Bounded parts := by
  have order : [0].Perm (List.range 1) := List.Perm.refl _
  obtain ⟨stl, nvhm, -, -⟩ :=
    @overflow_policy_bounds Nat _ 64 _ (floatTable keepOne) (nvhmTable keepAll)
    (by decide +kernel) (by decide +kernel)
  constructor
  · obtain ⟨bounded, completes⟩ := stl [insertAll [1, 2, 3] 4 0] (by
      intro call listed
      rw [List.mem_singleton.mp listed]
      exact ⟨trivial, order⟩)
    obtain ⟨⟨parts, outcomes⟩, ran⟩ := Option.isSome_iff_exists.mp (completes
      (by
        change (4 + 8 + 4 - 1) / 4 * 4 ≤ 64
        decide)
      (by
        intro call listed
        rw [List.mem_singleton.mp listed]
        trivial))
    exact ⟨parts, outcomes, ran, bounded parts outcomes ran⟩
  · obtain ⟨bounded, completes⟩ :=
      nvhm (fun _ => (∅, fun _ => 0)) (fun _ => rfl) [nvhmInsert [1, 2, 3]] (by
      intro call listed
      rw [List.mem_singleton.mp listed]
      exact order)
    obtain ⟨parts, ran⟩ := Option.isSome_iff_exists.mp (completes (by
      intro call listed
      rw [List.mem_singleton.mp listed]
      trivial))
    exact ⟨parts, ran, bounded parts ran⟩

/-- Nothing has to go when the margin is reached, and the new key is one too many. -/
theorem stl_partition_exceeds_margin :
    ∃ parts outcomes, (floatTable keepAll).runCalls (fun _ => .empty) [insertAll [1, 2, 3] 4 0] =
      some (parts, outcomes) ∧
      (floatTable keepAll).config.overflowPolicy.overflowMargin = 2 ∧ (parts 0).size = 3 := by
  have sizes : ((floatTable keepAll).runCalls (fun _ => .empty) [insertAll [1, 2, 3] 4 0]).map
      (fun ended => (ended.1 0).size) = some 3 := by decide +kernel
  obtain ⟨⟨parts, outcomes⟩, ran, size⟩ := Option.map_eq_some_iff.mp sizes
  exact ⟨parts, outcomes, ran, rfl, size⟩

end EmbedCache.HostTable
