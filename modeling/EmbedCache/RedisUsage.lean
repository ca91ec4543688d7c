import EmbedCache.RedisOverflow

/-! Access counts of the LFU handler: `HINCRBY` goes to the field that holds the row, and
`resolve_overflow` reads that field as an `int64_t`. -/

namespace EmbedCache.RedisClusterTable

open Lib HostTable List

namespace PartitionCall

variable {Hash Key : Type*} [DecidableEq Key] (call : PartitionCall Hash Key)

inductive Use (Key : Type*)
  | insert (batch : List (Key × List UInt8))
  | find (keys : List Key)

/-- The hash, and the uses of every key so far. -/
abbrev Usage (Hash Key : Type*) := Hash × (Key → Nat)

/-- A batch of `insert` or of `find`. Up to the first overflow `process_batch` is `store`. -/
def perform (state : Usage Hash Key) : Use Key → Usage Hash Key
  | .insert batch =>
    (call.store [] batch state.1, fun key => state.2 key + (batch.map Prod.fst).count key)
  | .find keys =>
    let hits := keys.filter fun key => (call.server.get state.1 key).isSome
    (hits.foldl (call.setMeta []) state.1, fun key => state.2 key + hits.count key)

def run (start : Hash) (steps : List (Use Key)) : Usage Hash Key :=
  steps.foldl call.perform (start, fun _ => 0)

def Counted (state : Usage Hash Key) : Prop := ∀ key, call.metadata state.1 key = state.2 key

/-! ### The field of a key -/

/-- The row a batch leaves for a key, or what was there. -/
def rowAfter (key : Key) (batch : List (Key × List UInt8)) (row : Option (List UInt8)) :
    Option (List UInt8) :=
  batch.foldl (fun row entry => if key = entry.1 then some entry.2 else row) row

/-- The row of the last insert, and the uses since then. -/
def latestStep (key : Key) (latest : Option (List UInt8 × Nat)) :
    Use Key → Option (List UInt8 × Nat)
  | .insert batch =>
    if key ∈ batch.map Prod.fst
    then (rowAfter key batch none).map fun row => (row, (batch.map Prod.fst).count key)
    else latest
  | .find keys => latest.map fun seen => (seen.1, seen.2 + keys.count key)

def latest (steps : List (Use Key)) (key : Key) : Option (List UInt8 × Nat) :=
  steps.foldl (latestStep key) none

/-- The field of a key is the row it was last inserted with, changed by the uses since then. -/
structure Follows (state : Usage Hash Key) (seen : Key → Option (List UInt8 × Nat)) : Prop where
  field : ∀ key, call.server.get state.1 key = (seen key).map fun last =>
    (call.server.incremented 1)^[last.2] last.1
  unused : ∀ key, seen key = none → state.2 key = 0

theorem rowAfter_of_notMem {key : Key} {batch : List (Key × List UInt8)}
    (absent : key ∉ batch.map Prod.fst)
    (row : Option (List UInt8)) : rowAfter key batch row = row := by
  induction batch generalizing row with
  | nil => rfl
  | cons entry rest ih =>
    rw [map_cons, mem_cons, not_or] at absent
    rw [rowAfter, foldl_cons, if_neg absent.1]
    exact ih absent.2 row

theorem rowAfter_of_mem {key : Key} {batch : List (Key × List UInt8)}
    (member : key ∈ batch.map Prod.fst)
    (row : Option (List UInt8)) : rowAfter key batch row = rowAfter key batch none := by
  induction batch generalizing row with
  | nil => exact absurd member not_mem_nil
  | cons entry rest ih =>
    rw [rowAfter, rowAfter, foldl_cons, foldl_cons]
    by_cases same : key = entry.1
    · rw [if_pos same, if_pos same]
    · rw [if_neg same, if_neg same]
      exact ih ((mem_cons.mp member).resolve_left same) row

variable {call} {hash : Hash}

theorem get_hsets (batch : List (Key × List UInt8)) (hash : Hash) (key : Key) :
    call.server.get (batch.foldl (fun hash entry => call.server.hset hash entry.1 entry.2) hash)
      key =
      rowAfter key batch (call.server.get hash key) := by
  induction batch generalizing hash with
  | nil => rfl
  | cons entry rest ih => rw [foldl_cons, ih, call.server.get_hset, rowAfter, rowAfter, foldl_cons]

variable (lfu : call.policy.handler = .evictLFU)

include lfu

/-- Uses of stored keys change their fields, each by the `HINCRBY` of the key. -/
theorem get_uses {keys : List Key} (present : ∀ key ∈ keys, (call.server.get hash key).isSome)
    (key : Key) :
    call.server.get (keys.foldl (call.setMeta []) hash) key =
      (call.server.get hash key).map (call.server.incremented 1)^[keys.count key] := by
  induction keys generalizing hash with
  | nil => exact Option.map_id.symm ▸ rfl
  | cons field rest ih =>
    have held := present field mem_cons_self
    have step : call.setMeta [] hash field =
        call.server.hincrby hash field 1 := by rw [setMeta, lfu]
    rw [foldl_cons, step, ih fun other member => (hincrby_sameKeys held 1 other).mpr
      (present other (mem_cons_of_mem _ member)),
        call.server.get_hincrby hash field 1 key held, count_cons]
    by_cases same : key = field
    · rw [if_pos same, same, beq_self_eq_true, if_pos rfl, Option.map_map, Function.iterate_succ]
    · rw [if_neg same, if_neg (by simpa using Ne.symm same), Nat.add_zero]

variable (partitioned : call.partitioned = true)

include partitioned

theorem Follows.perform {state : Usage Hash Key} {seen : Key → Option (List UInt8 × Nat)}
    (before : call.Follows state seen) (step : Use Key) :
    call.Follows (call.perform state step) fun key => latestStep key (seen key) step := by
  cases step with
  | insert batch =>
    have stored : call.store [] batch state.1 = (batch.map Prod.fst).foldl (call.setMeta [])
        (batch.foldl (fun hash entry => call.server.hset hash entry.1 entry.2) state.1) := by
      rw [store, if_pos partitioned, foldl_map]
    constructor
    · intro key
      simp only [PartitionCall.perform, latestStep]
      rw [stored, get_uses lfu fun key member => (hset_has batch state.1 key).mpr (.inl member),
        get_hsets]
      by_cases member : key ∈ batch.map Prod.fst
      · rw [if_pos member, rowAfter_of_mem member, Option.map_map]
        rfl
      · rw [if_neg member, rowAfter_of_notMem member, count_eq_zero.mpr member, before.field]
        exact Option.map_id.symm ▸ rfl
    · intro key none
      simp only [latestStep] at none
      simp only [PartitionCall.perform]
      split at none
      · rename_i member
        have row := (@hset_has Hash Key _ call batch state.1 key).mpr (.inl member)
        rw [get_hsets, rowAfter_of_mem member, Option.map_eq_none_iff.mp none] at row
        exact absurd row Bool.false_ne_true
      · rename_i absent
        rw [count_eq_zero.mpr absent, Nat.add_zero]
        exact before.unused key none
  | find keys =>
    have hits : ∀ key ∈ keys.filter fun key => (call.server.get state.1 key).isSome,
        (call.server.get state.1 key).isSome := fun key member => (mem_filter.mp member).2
    have counts : ∀ key, (call.server.get state.1 key).isSome →
        (keys.filter fun key => (call.server.get state.1 key).isSome).count key = keys.count key :=
          fun key held =>
      count_filter held
    constructor
    · intro key
      simp only [PartitionCall.perform, latestStep]
      rw [get_uses lfu hits, before.field]
      cases known : seen key with
      | none => rfl
      | some last =>
        rw [counts key (by rw [before.field, known]; rfl), Option.map_some, Option.map_some,
          Option.map_some,
          Option.map_some, Nat.add_comm, Function.iterate_add_apply]
    · intro key none
      have unseen : seen key = Option.none := Option.map_eq_none_iff.mp none
      have missed : key ∉ keys.filter fun key => (call.server.get state.1 key).isSome := by
        intro member
        have held := hits key member
        rw [before.field, unseen] at held
        exact Bool.false_ne_true held
      simp only [PartitionCall.perform]
      rw [count_eq_zero.mpr missed, Nat.add_zero]
      exact before.unused key unseen

theorem follows_run {start : Hash}
    (empty : ∀ key, call.server.get start key = none) (steps : List (Use Key)) :
    call.Follows (call.run start steps) (latest steps) := by
  have all : ∀ (state : Usage Hash Key) (seen : Key → Option (List UInt8 × Nat)),
      call.Follows state seen →
      call.Follows (steps.foldl call.perform state) fun key =>
        steps.foldl (latestStep key) (seen key) := by
    induction steps with
    | nil => exact fun _ _ => id
    | cons step rest ih =>
      exact fun state seen before => ih _ _ (before.perform lfu partitioned step)
  exact all _ _ ⟨empty, fun _ _ => rfl⟩

end PartitionCall

open PartitionCall

end EmbedCache.RedisClusterTable
