import EmbedCache.AbsentMask
import EmbedCache.Lib.KeyValue

/-! `RocksDBTable` (`rocksdb_table.cpp`): a column family that is written in batches.

Keys are the raw bytes of the key buffer, and the calls of the database succeed. -/

namespace EmbedCache.RocksDBTable

open Lib Bitmask AbsentMask List
open STLContainerTable (FindRequest FindBuffers)

structure RocksDBTableConfig where
  keySize : Nat
  maxValueSize : Nat
  maxBatchSize : Nat

/-- The calls of `rocksdb::DB` on a column family, and what is assumed of them. The iterator of
`size` goes through the keys. -/
structure ColumnFamily (Cf : Type*) extends KeyValue Cf (List UInt8) (List UInt8) where
  put : Cf → List UInt8 → List UInt8 → Cf
  delete : Cf → List UInt8 → Cf
  deleteRange : Cf → List UInt8 → List UInt8 → Cf
  get_put : ∀ cf key value other,
    get (put cf key value) other = if other = key then some value else get cf other
  get_delete : ∀ cf key other,
    get (delete cf key) other = if other = key then none else get cf other
  get_deleteRange : ∀ cf first last key,
    get (deleteRange cf first last) key = if first ≤ key ∧ key < last then none else get cf key

variable {Cf : Type*} (db : ColumnFamily Cf)

/-! ### Writing -/

/-- An entry of a `WriteBatch`. -/
inductive BatchEntry
  | put (key value : List UInt8)
  | delete (key : List UInt8)
  deriving DecidableEq, Repr

def BatchEntry.apply (cf : Cf) : BatchEntry → Cf
  | .put key value => db.put cf key value
  | .delete key => db.delete cf key

def write (cf : Cf) (batch : List BatchEntry) : Cf := batch.foldl (BatchEntry.apply db) cf

/-- The column family and the batch that is being filled. -/
def push (maxBatchSize : Nat) (state : Cf × List BatchEntry) (entry : BatchEntry) :
    Cf × List BatchEntry :=
  if state.2.length + 1 < maxBatchSize then (state.1, state.2 ++ [entry])
  else (write db state.1 (state.2 ++ [entry]), [])

def writeBatches (maxBatchSize : Nat) (entries : List BatchEntry) (cf : Cf) : Cf :=
  let filled := entries.foldl (push db maxBatchSize) (cf, [])
  if filled.2.isEmpty then filled.1 else write db filled.1 filled.2

variable {db}

theorem foldl_push (maxBatchSize : Nat) (entries : List BatchEntry) (state : Cf × List BatchEntry) :
    let filled := entries.foldl (push db maxBatchSize) state
    write db filled.1 filled.2 = write db (write db state.1 state.2) entries := by
  induction entries generalizing state with
  | nil => rfl
  | cons entry rest ih =>
    rw [foldl_cons]
    refine (ih _).trans ?_
    rw [push]
    split <;> simp [write]

theorem writeBatches_eq (maxBatchSize : Nat) (entries : List BatchEntry) (cf : Cf) :
    writeBatches db maxBatchSize entries cf = write db cf entries := by
  have all := @foldl_push Cf db maxBatchSize entries (cf, [])
  rw [writeBatches]
  split
  · rename_i empty
    dsimp only at all
    rw [isEmpty_iff.mp empty] at all
    exact all
  · exact all

theorem write_has {cf : Cf} {batch : List BatchEntry} {key : List UInt8}
    (held : (db.get (write db cf batch) key).isSome) :
    (db.get cf key).isSome ∨ ∃ value, .put key value ∈ batch := by
  induction batch generalizing cf with
  | nil => exact .inl held
  | cons entry rest ih =>
    rcases ih held with before | ⟨value, later⟩
    · cases entry with
      | put other value =>
        rw [BatchEntry.apply, db.get_put] at before
        split at before
        · rename_i same
          exact .inr ⟨value, same ▸ mem_cons_self⟩
        · exact .inl before
      | delete other =>
        rw [BatchEntry.apply, db.get_delete] at before
        split at before
        · cases before
        · exact .inl before
    · exact .inr ⟨value, mem_cons_of_mem _ later⟩

variable (db)

/-! ### The calls -/

section Calls

variable (config : RocksDBTableConfig)

def keyAt (keys : Nat → UInt8) (i : Nat) : List UInt8 :=
  readRange keys (i * config.keySize) config.keySize

/-- `clear`, with the bytes of the texts that bound the interval. -/
def clear (cf : Cf) : Cf := db.deleteRange cf [] [0x7e]

def erase (n : Nat) (keys : Nat → UInt8) (cf : Cf) : Cf :=
  writeBatches db (min n config.maxBatchSize)
    ((List.range n).map fun i => .delete (keyAt config keys i)) cf

structure Batch where
  n : Nat
  keys : Nat → UInt8
  valueStride : Nat
  values : Nat → UInt8

variable (batch : Batch) (valueSize : Int)

def Batch.put (i : Nat) : BatchEntry :=
  .put (keyAt config batch.keys i) (readRange batch.values (i * batch.valueStride) valueSize.toNat)

def sizeChecked : Bool := 0 ≤ valueSize ∧ valueSize ≤ config.maxValueSize

/-- `insert`; a failed check comes before the first write. -/
def insert (cf : Cf) : Cf :=
  if sizeChecked config valueSize
  then writeBatches db (min batch.n config.maxBatchSize)
    ((List.range batch.n).map (batch.put config valueSize)) cf
  else cf

def asDatabase (cf : Cf) : Database (List UInt8) := ⟨db.get cf, config.maxBatchSize, false, true⟩

def find {b : Nat} (n : Nat) (keys : Nat → UInt8) (valueStride : Nat)
    (withValues withValueSizes : Bool)
    (buffers : FindBuffers b) (cf : Cf) : Option (FindBuffers b × Int) :=
  (asDatabase db config cf).find true
    ⟨n, keyAt config keys, valueStride, withValues, withValueSizes⟩
    (rocksTasks b n) buffers

def setPositions {b : Nat} (hitMask : Nat → BitVec b) (n : Nat) : List Nat :=
  (List.range (maskSize b n)).flatMap fun w =>
    ((List.range b).filter fun j => (hitMask w).getLsbD j).map fun j => w * b + j

def scratch (b : Nat) : FindBuffers b := ⟨fun _ => 0, fun _ => 0, fun _ => 0⟩

/-- `update`; `none` is a write past the views of `find_`. -/
def update (b : Nat) (cf : Cf) : Option Cf :=
  (find db config batch.n batch.keys batch.valueStride false false (scratch b) cf).map fun found =>
    if found.2 = 0 ∨ ¬ sizeChecked config valueSize then cf
    else writeBatches db config.maxBatchSize
      ((setPositions found.1.hitMask batch.n).map (batch.put config valueSize)) cf

inductive Call
  | insert (batch : Batch) (valueSize : Int)
  | update (batch : Batch) (valueSize : Int)
  | erase (n : Nat) (keys : Nat → UInt8)

def exec (b : Nat) (cf : Cf) : Call → Option Cf
  | .insert batch valueSize => some (insert db config batch valueSize cf)
  | .update batch valueSize => update db config batch valueSize b cf
  | .erase n keys => some (erase db config n keys cf)

/-- `find` hits nothing, whatever it is asked for, and nothing is counted. -/
structure Emptied (b : Nat) (cf : Cf) : Prop where
  find : ∀ n keys valueStride withValues withValueSizes (buffers : FindBuffers b),
    find db config n keys valueStride withValues withValueSizes buffers cf = some (buffers, 0)
  size : db.size cf = 0

end Calls

def Call.Inserts (config : RocksDBTableConfig) (call : Call) (key : List UInt8) : Prop :=
  match call with
  | .insert batch _ => ∃ i < batch.n, keyAt config batch.keys i = key
  | _ => False

/-! ### Keys of a run -/

section Hits

variable {Key : Type*} {b : Nat} (database : Database Key) (request : FindRequest Key)

/-- Only positions of stored keys are marked. -/
def Marks (state : Progress b) : Prop :=
  ∀ q, (state.hitMask (q / b)).getLsbD (q % b) = true → (database.lookup (request.keys q)).isSome

variable {database request}

theorem Marks.reply (wide : 0 < b) {state after : Progress b}
    (marks : Marks database request state) {q : Nat}
    (replied : database.reply true request state q = some after) :
      Marks database request after := by
  rw [Database.reply] at replied
  split at replied
  · exact Option.some.inj replied ▸ marks
  · rename_i bytes stored
    split at replied
    · cases replied
    · obtain ⟨mask, loaded, rfl⟩ := Option.map_eq_some_iff.mp replied
      rw [load, if_pos rfl, Option.some.injEq] at loaded
      intro other bit
      dsimp only at bit
      by_cases here : other / b = q / b
      · rw [here, Function.update_self, getLsbD_set _ _ (Nat.mod_lt _ wide),
          Bool.or_eq_true, ← loaded,
          decide_eq_true_iff] at bit
        rcases bit with old | place
        · exact marks other (here ▸ old)
        · have same : other = q := by rw [← Nat.div_add_mod other b, here, place, Nat.div_add_mod]
          rw [same, stored]
          rfl
      · rw [Function.update_of_ne here] at bit
        exact marks other bit

theorem Marks.processBatch (wide : 0 < b) {state after : Progress b}
    (marks : Marks database request state)
    (sent : database.processBatch true request state = some after) :
      Marks database request after := by
  obtain ⟨ended, replied, rfl⟩ := Option.map_eq_some_iff.mp sent
  have kept : Marks database request ended :=
    foldlM_preserves (Marks database request) (fun _ _ _ _ held stepped => held.reply wide stepped)
      marks replied
  exact kept

theorem Marks.word (wide : 0 < b) {state after : Progress b} (marks : Marks database request state)
    {task : WordTask Key} {w : Nat}
    (passed : database.word true request task state w = some after) :
    Marks database request after := by
  obtain ⟨mask, -, rest⟩ := Option.bind_eq_some_iff.mp passed
  obtain ⟨middle, sent, joined⟩ := Option.bind_eq_some_iff.mp rest
  have kept : Marks database request middle := by
    split at sent
    · exact marks.processBatch wide sent
    · exact Option.some.inj sent ▸ marks
  dsimp only at joined
  split at joined
  · cases joined
  · exact Option.some.inj joined ▸ kept

theorem marks_find (wide : 0 < b) {tasks : List (WordTask Key)} {buffers : FindBuffers b}
    (clean : Marks database request ⟨buffers, [], 0⟩) {found : FindBuffers b × Int}
    (ended : database.find true request tasks buffers = some found) :
      Marks database request ⟨found.1, [], 0⟩ := by
  rw [Database.find] at ended
  split at ended
  · obtain ⟨state, ran, rfl⟩ := Option.map_eq_some_iff.mp ended
    have marks : Marks database request state := by
      refine foldlM_preserves (Marks database request) ?_ clean ran
      intro task _ before after marks stepped
      obtain ⟨middle, passed, last⟩ := Option.bind_eq_some_iff.mp stepped
      have kept :=
        foldlM_preserves (Marks database request)
          (fun _ _ _ _ held stepped => held.word wide stepped)
        (show Marks database request { before with batch := [] } from marks) passed
      split at last
      · exact Option.some.inj last ▸ kept
      · exact kept.processBatch wide last
    exact marks
  · exact Option.some.inj ended ▸ clean

end Hits

section Runs

variable {db} {config : RocksDBTableConfig} {b : Nat} {key : List UInt8} {before after : Cf}

theorem update_has (wide : 0 < b) {batch : Batch} {valueSize : Int}
    (updated : update db config batch valueSize b before = some after)
    (held : (db.get after key).isSome) :
    (db.get before key).isSome := by
  obtain ⟨found, ended, rfl⟩ := Option.map_eq_some_iff.mp updated
  split at held
  · exact held
  · rw [writeBatches_eq] at held
    rcases write_has held with old | ⟨value, put⟩
    · exact old
    · obtain ⟨q, hit, same⟩ := mem_map.mp put
      obtain ⟨rfl, -⟩ := BatchEntry.put.inj same
      obtain ⟨w, -, place⟩ := mem_flatMap.mp hit
      obtain ⟨j, bit, rfl⟩ := mem_map.mp place
      obtain ⟨inside, marked⟩ := mem_filter.mp bit
      have bound := mem_range.mp inside
      refine marks_find wide ?_ ended (w * b + j) ?_
      · intro q bit
        simp [scratch] at bit
      · rwa [Nat.mul_comm, Nat.mul_add_div wide, Nat.div_eq_of_lt bound, Nat.add_zero,
          Nat.mul_add_mod,
          Nat.mod_eq_of_lt bound]

theorem exec_has (wide : 0 < b) {call : Call} (executed : exec db config b before call = some after)
    (held : (db.get after key).isSome) : (db.get before key).isSome ∨ call.Inserts config key := by
  cases call with
  | insert batch valueSize =>
    rw [← Option.some.inj executed, insert] at held
    split at held
    · rw [writeBatches_eq] at held
      rcases write_has held with old | ⟨value, put⟩
      · exact .inl old
      · obtain ⟨i, inside, same⟩ := mem_map.mp put
        exact .inr ⟨i, mem_range.mp inside, (BatchEntry.put.inj same).1⟩
    · exact .inl held
  | update batch valueSize => exact .inl (update_has wide executed held)
  | erase n keys =>
    rw [← Option.some.inj executed, erase, writeBatches_eq] at held
    rcases write_has held with old | ⟨value, put⟩
    · exact .inl old
    · obtain ⟨i, -, same⟩ := mem_map.mp put
      cases same

end Runs

/-! ### `find` in an empty table -/

section Nothing

variable {Key : Type*} {b : Nat} {database : Database Key} {request : FindRequest Key}
  (missing : ∀ q, database.lookup (request.keys q) = none)

include missing

theorem processBatch_missing (state : Progress b) :
    database.processBatch true request state = some { state with batch := [] } := by
  have replies : state.batch.foldlM (database.reply true request) state = some state := by
    induction state.batch with
    | nil => rfl
    | cons q rest ih =>
      rw [foldlM_cons, Database.reply, missing q]
      exact ih
  rw [Database.processBatch, replies]
  rfl

/-- The open positions of a word join the batch, before or after it is sent. -/
theorem word_missing (task : WordTask Key) (state : Progress b) {w : Nat}
    (room : ((List.range b).filter fun j =>
      (clip (invert (state.hitMask w)) (task.hi - w * b)).getLsbD j).length ≤
        database.batchSize request) :
    ∃ batch, database.word true request task state w = some { state with batch := batch } := by
  rw [Database.word, load, if_pos rfl, Option.bind_some]
  dsimp only
  generalize ((List.range b).filter fun j =>
    (clip (invert (state.hitMask w)) (task.hi - w * b)).getLsbD j) = bits at room
  have owned := length_filter_le (fun q => task.own (request.keys q)) (bits.map fun j => w * b + j)
  rw [length_map] at owned ⊢
  split
  · rw [processBatch_missing missing, Option.bind_some, if_neg]
    · exact ⟨_, rfl⟩
    · rintro ⟨-, past⟩
      exact absurd (past.trans_le (owned.trans room)) (lt_irrefl _)
  · rw [Option.bind_some, if_neg]
    · exact ⟨_, rfl⟩
    · rintro ⟨-, past⟩
      rw [length_append] at past
      omega

theorem words_missing (room : b ≤ database.maxBatchSize) (own : Key → Bool) (items : List Nat)
    (state : Progress b) :
    ∃ batch, items.foldlM
      (database.word true request ⟨List.range (maskSize b request.n), request.n, own⟩) state =
      some { state with batch := batch } := by
  induction items generalizing state with
  | nil => exact ⟨state.batch, rfl⟩
  | cons w rest ih =>
    have fits : ((List.range b).filter fun j =>
        (clip (invert (state.hitMask w)) (request.n - w * b)).getLsbD j).length ≤
          database.batchSize request := by
      have width :=
        length_filter_le (fun j => (clip (invert (state.hitMask w)) (request.n - w * b)).getLsbD j)
        (List.range b)
      have keys : ((List.range b).filter fun j =>
          (clip (invert (state.hitMask w)) (request.n - w * b)).getLsbD j) ⊆ List.range
            request.n := by
        intro j member
        obtain ⟨inside, bit⟩ := mem_filter.mp member
        rw [getLsbD_clip _ _ (mem_range.mp inside), Bool.and_eq_true, decide_eq_true_iff] at bit
        exact mem_range.mpr (by omega)
      have count := ((nodup_range.filter _).subperm keys).length_le
      rw [length_range] at width count
      rw [Database.batchSize]
      omega
    obtain ⟨batch, first⟩ :=
      word_missing missing ⟨List.range (maskSize b request.n), request.n, own⟩ state fits
    obtain ⟨last, others⟩ := ih { state with batch := batch }
    refine ⟨last, ?_⟩
    rw [foldlM_cons, first]
    exact others

theorem find_missing (room : b ≤ database.maxBatchSize) (buffers : FindBuffers b) :
    database.find true request (rocksTasks b request.n) buffers = some (buffers, 0) := by
  have task : database.runTask true request ⟨buffers, [], 0⟩
      ⟨List.range (maskSize b request.n), request.n, fun _ => true⟩ = some ⟨buffers, [], 0⟩ := by
    obtain ⟨batch, passed⟩ :=
      words_missing missing room (fun _ => true) (List.range (maskSize b request.n))
      ⟨buffers, [], 0⟩
    rw [Database.runTask, passed, Option.bind_some]
    split
    · rename_i nothing
      exact congrArg (fun batch => some (Progress.mk buffers batch 0)) (isEmpty_iff.mp nothing)
    · exact processBatch_missing missing _
  rw [Database.find]
  split
  · rw [rocksTasks, foldlM_cons, task]
    rfl
  · rfl

end Nothing

section Room

variable {b : Nat} {config : RocksDBTableConfig}

/-- A word of open positions does not fit into the views of a smaller batch. -/
theorem find_overruns (wide : 0 < b) (small : config.maxBatchSize < b)
    (keys : Nat → UInt8) (cf : Cf) :
    find db config b keys 0 false false (scratch b) cf = none := by
  have one : maskSize b b = 1 := Nat.div_eq_of_lt_le (by omega) (by omega)
  have bits : ((List.range b).filter fun j =>
      (clip (invert ((scratch b).hitMask 0)) (b - 0 * b)).getLsbD j) = List.range b := by
    refine filter_eq_self.mpr fun j member => ?_
    have inside := mem_range.mp member
    rw [getLsbD_clip _ _ inside, getLsbD_invert _ inside]
    simp [scratch, inside]
  have word : (asDatabase db config cf).word true ⟨b, keyAt config keys, 0, false, false⟩
      ⟨List.range (maskSize b b), b, fun _ => true⟩ ⟨scratch b, [], 0⟩ 0 = none := by
    rw [Database.word, load, if_pos rfl, Option.bind_some]
    dsimp only
    rw [bits, if_pos]
    · rw [Database.processBatch, foldlM_nil]
      change (if _ then none else _) = none
      rw [if_pos]
      refine ⟨rfl, ?_⟩
      rw [nil_append, filter_true, length_map, length_range, Database.batchSize]
      exact (min_le_right _ _).trans_lt small
    · rw [length_map, length_range, Database.batchSize]
      exact (min_le_right _ _).trans_lt (small.trans_le (Nat.le_add_left _ _))
  have task : (asDatabase db config cf).runTask true ⟨b, keyAt config keys, 0, false, false⟩
      ⟨scratch b, [], 0⟩
      ⟨List.range (maskSize b b), b, fun _ => true⟩ = none := by
    have words : List.range (maskSize b b) = [0] := by rw [one, range_one]
    rw [Database.runTask]
    dsimp only
    nth_rewrite 2 [words]
    rw [foldlM_cons, word]
    rfl
  rw [find, Database.find, if_pos wide, rocksTasks, foldlM_cons, task]
  rfl

end Room

/-! ### `clear` -/

theorem below_tilde {key : List UInt8} : key < [0x7e] ↔ key.headD 0 < 0x7e := by
  cases key with
  | nil => exact ⟨fun _ => by decide, fun _ => nil_lt_cons _ _⟩
  | cons first rest => simp [cons_lt_cons_iff]

variable {db}

theorem get_clear (cf : Cf) (key : List UInt8) :
    db.get (clear db cf) key = if key.headD 0 < 0x7e then none else db.get cf key := by
  rw [clear, db.get_deleteRange]
  simp only [nil_le, true_and, below_tilde]

theorem emptied_iff {config : RocksDBTableConfig} {b : Nat} (wide : 0 < b) (cf : Cf) :
    Emptied db config b (clear db cf) ↔
      (∀ key, (db.get cf key).isSome → key.headD 0 < 0x7e) ∧ b ≤ config.maxBatchSize := by
  constructor
  · intro emptied
    constructor
    · intro key held
      by_contra high
      have gone := KeyValue.size_eq_zero_iff.mp emptied.size key
      rw [get_clear, if_neg high] at gone
      rw [gone] at held
      exact Bool.false_ne_true held
    · by_contra small
      have found := emptied.find b (fun _ => 0) 0 false false (scratch b)
      rw [find_overruns db wide (by omega)] at found
      cases found
  · rintro ⟨low, enough⟩
    have gone : ∀ key, db.get (clear db cf) key = none := by
      intro key
      rw [get_clear]
      split
      · rfl
      · rename_i high
        exact Option.not_isSome_iff_eq_none.mp fun held => high (low key held)
    exact {
      find := fun n keys valueStride withValues withValueSizes buffers =>
        find_missing (fun q => gone _) enough buffers
      size := KeyValue.size_eq_zero_iff.mpr gone }

/-- After any run, `clear` leaves nothing exactly when the keys of the table begin with bytes below
the tilde and the batches of `find` have room for a word of the mask; the former holds if no other
keys are inserted. -/
theorem clear_empties_iff {config : RocksDBTableConfig} {b : Nat} (wide : 0 < b) {start cf : Cf}
    {calls : List Call} (ran : calls.foldlM (exec db config b) start = some cf) :
    (Emptied db config b (clear db cf) ↔
      (∀ key, (db.get cf key).isSome → key.headD 0 < 0x7e) ∧ b ≤ config.maxBatchSize) ∧
    ((∀ key, (db.get start key).isSome → key.headD 0 < 0x7e) →
      (∀ call ∈ calls, ∀ key, call.Inserts config key → key.headD 0 < 0x7e) →
        b ≤ config.maxBatchSize →
      Emptied db config b (clear db cf)) := by
  refine ⟨emptied_iff wide cf, fun before inserted room => (emptied_iff wide cf).mpr ⟨?_, room⟩⟩
  refine foldlM_preserves (fun cf => ∀ key, (db.get cf key).isSome → key.headD 0 < 0x7e)
    ?_ before ran
  intro call member cf after low executed key held
  rcases exec_has wide executed held with old | inserts
  · exact low key old
  · exact inserted call member key inserts

def wideKeys : RocksDBTableConfig := ⟨8, 1, 64⟩

abbrev Listed := AList fun _ : List UInt8 => List UInt8

def Listed.deleteRange (cf : Listed) (first last : List UInt8) : Listed :=
  (cf.keys.filter fun key => first ≤ key ∧ key < last).foldl (fun cf key => cf.erase key) cf

theorem Listed.lookup_deleteRange (cf : Listed) (first last key : List UInt8) :
    (cf.deleteRange first last).lookup key =
      if first ≤ key ∧ key < last then none else cf.lookup key := by
  rw [Listed.deleteRange, lookup_eraseMany]
  split
  · rename_i member
    rw [if_pos (of_decide_eq_true (mem_filter.mp member).2)]
  · rename_i outside
    split
    · rename_i between
      refine AList.lookup_eq_none.mpr fun member => outside (mem_filter.mpr ⟨member, ?_⟩)
      exact decide_eq_true between
    · rfl

def listed : ColumnFamily Listed where
  toKeyValue := .alist
  put cf key value := cf.insert key value
  delete cf key := cf.erase key
  deleteRange := Listed.deleteRange
  get_put cf key value other := KeyValue.lookup_insert_eq cf key other value
  get_delete := KeyValue.lookup_erase_eq
  get_deleteRange := Listed.lookup_deleteRange

def rowOf (key : List UInt8) : Batch := ⟨1, fun i => key.getD i 0, 1, fun _ => 7⟩

/-- The key 125 with a second byte is inserted, found by an update, and gone after `clear`. -/
theorem clear_empties_low_key :
    ∃ cf, [Call.insert (rowOf [0x7d, 0xff]) 1, .update (rowOf [0x7d, 0xff]) 1].foldlM
      (exec listed wideKeys 64) ∅ =
      some cf ∧ listed.size cf = 1 ∧ Emptied listed wideKeys 64 (clear listed cf) := by
  have sizes : ([Call.insert (rowOf [0x7d, 0xff]) 1, .update (rowOf [0x7d, 0xff]) 1].foldlM
      (exec listed wideKeys 64) ∅).map (fun cf => (listed.size cf, cf.keys)) =
        some (1, [[0x7d, 0xff, 0, 0, 0, 0, 0, 0]]) := by decide +kernel
  obtain ⟨cf, ran, same⟩ := Option.map_eq_some_iff.mp sizes
  refine ⟨cf, ran, (Prod.mk.inj same).1, (clear_empties_iff (by decide) ran).1.mpr ⟨?_, by decide⟩⟩
  intro key held
  have member : key ∈ cf.keys := (listed.mem_keys cf key).mpr held
  rw [(Prod.mk.inj same).2, mem_singleton] at member
  rw [member]
  decide

/-- The key 126 outlives `clear`: it is counted and found. -/
theorem clear_keeps_tilde :
    ([Call.insert (rowOf [0x7e]) 1].foldlM (exec listed wideKeys 64) ∅).map (fun cf =>
      (listed.size (clear listed cf),
        (find listed wideKeys 1 (rowOf [0x7e]).keys 1 true false (scratch 64)
        (clear listed cf)).map fun found => (found.1.values 0, found.2))) =
          some (1, some (7, 1)) := by
  decide +kernel

end EmbedCache.RocksDBTable
