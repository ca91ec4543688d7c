import EmbedCache.RedisNames
import EmbedCache.HostTable
import EmbedCache.Lib.KeyValue
import EmbedCache.Lib.SlotPool

/-! Inserts into a partition of `RedisClusterTable`, and `resolve_overflow`.

Both names of a partition are the same (`hashName_eq`), so that rows and metadata are fields of one
hash. Nobody else writes, so a pipeline is the sequence of its commands; an error reply changes
nothing and is not looked at. -/

namespace EmbedCache.RedisClusterTable

open Lib HostTable List

variable {Hash Key : Type*}

/-- The commands on a hash, and what is assumed of them. `HKEYS` and `HGETALL` bring the keys and
fields, `incremented` is what `HINCRBY` leaves in a field that is there. -/
structure Server (Hash Key : Type*) [DecidableEq Key] extends KeyValue Hash Key (List UInt8) where
  hset : Hash → Key → List UInt8 → Hash
  hsetnx : Hash → Key → List UInt8 → Hash
  hincrby : Hash → Key → Int → Hash
  hdel : Hash → List Key → Hash
  hlen : Hash → Nat
  incremented : Int → List UInt8 → List UInt8
  get_hset : ∀ hash key bytes other,
    get (hset hash key bytes) other = if other = key then some bytes else get hash other
  hsetnx_present : ∀ hash key bytes, (get hash key).isSome → hsetnx hash key bytes = hash
  get_hincrby : ∀ hash key delta other, (get hash key).isSome → get (hincrby hash key delta) other =
    if other = key then (get hash key).map (incremented delta) else get hash other
  get_hdel : ∀ hash keys key, get (hdel hash keys) key = if key ∈ keys then none else get hash key
  hlen_eq : ∀ hash, hlen hash = (keys hash).length

/-- A partition or the single hash, and what a call finds open: the order of replies and the
shuffle, and the memory behind a field that is shorter than the metadata read from it. -/
structure PartitionCall (Hash Key : Type*) [DecidableEq Key] where
  server : Server Hash Key
  /-- The single-hash mode sends no metadata. -/
  partitioned : Bool
  policy : OverflowPolicyConfig
  maxBatchSize : Nat
  maxBatchSize_pos : 0 < maxBatchSize
  shuffle : Shuffle Key
  beyond : Key → Nat → UInt8

namespace PartitionCall

variable [DecidableEq Key] (call : PartitionCall Hash Key)

def readMeta (key : Key) (bytes : List UInt8) : Int :=
  (ofLittleEndian 8 fun i => if i < bytes.length then bytes.getD i 0 else call.beyond key i).toInt

/-- The metadata that is read for a key from the reply of `HGETALL`. -/
def metadata (hash : Hash) (key : Key) : Int :=
  match call.server.get hash key with
  | none => 0
  | some bytes => call.readMeta key bytes

/-! ### Insert -/

variable (lruValue : List UInt8)

def setMeta (hash : Hash) (key : Key) : Hash :=
  match call.policy.handler with
  | .evictRandom => hash
  | .evictLRU => call.server.hsetnx hash key lruValue
  | .evictLFU => call.server.hincrby hash key 1

variable (batch : List (Key × List UInt8))

/-- The commands of `process_batch` before its `HLEN`. -/
def store (hash : Hash) : Hash :=
  let stored := batch.foldl (fun hash entry => call.server.hset hash entry.1 entry.2) hash
  if call.partitioned then
    batch.foldl (fun hash entry => call.setMeta lruValue hash entry.1) stored
  else stored

/-! ### Overflow -/

def deleteBatch (hash : Hash) (keys : List Key) : Hash × Nat :=
  let hash := match call.policy.handler with
    | .evictRandom => hash
    | _ => call.server.hdel hash keys
  let hash := call.server.hdel hash keys
  (hash, call.server.hlen hash)

/-- The loop that collects keys and deletes them in batches; `keyViews` is what has been
collected. -/
def deleteLoop (hash : Hash) (partSize : Nat) : List Key → List Key → Hash × Nat
  | [], keyViews => if keyViews.isEmpty then (hash, partSize) else call.deleteBatch hash keyViews
  | key :: rest, keyViews =>
    if (keyViews ++ [key]).length < call.maxBatchSize then
      deleteLoop hash partSize rest (keyViews ++ [key])
    else
      let deleted := call.deleteBatch hash (keyViews ++ [key])
      if deleted.2 ≤ call.policy.resolution then deleted else deleteLoop deleted.1 deleted.2 rest []

/-- `std::min(part_size - resolution_margin, {})`. -/
def lfuMid (partSize : Nat) : Int := min ((partSize : Int) - call.policy.resolution) 0

/-- `HINCRBY` by half of what was read, for one key. -/
def halve (read : Key → Int) (hash : Hash) (key : Key) : Hash :=
  call.server.hincrby hash key ((max (read key) 0).tdiv (-2))

/-- The loop over the remaining keys, in batches from `i` on. -/
def halveLoop (read : Key → Int) (keys : List Key) (i partSize : Nat) (hash : Hash) : Hash :=
  (List.range ((partSize - i + call.maxBatchSize - 1) / call.maxBatchSize)).foldl
    (fun hash t =>
      let first := i + t * call.maxBatchSize
      ((keys.drop first).take (min (partSize - first) call.maxBatchSize)).foldl
        (call.halve read) hash)
    hash

def resolveOverflow (hash : Hash) : Hash :=
  let fetched := call.shuffle.order (call.server.keys hash)
  match call.policy.handler with
  | .evictRandom =>
    if fetched.length ≤ call.policy.resolution then hash
    else (call.deleteLoop hash fetched.length (fetched.drop call.policy.resolution) []).1
  | .evictLRU =>
    let keys := fetched.mergeSort fun a b => call.metadata hash b ≤ call.metadata hash a
    if keys.length ≤ call.policy.resolution then hash
    else (call.deleteLoop hash keys.length (keys.drop call.policy.resolution) []).1
  | .evictLFU =>
    let keys := fetched.mergeSort fun a b => call.metadata hash a ≤ call.metadata hash b
    if keys.length ≤ call.policy.resolution then hash
    else
      let mid := (call.lfuMid keys.length).toNat
      let deleted := call.deleteLoop hash keys.length (keys.take mid) []
      call.halveLoop (call.metadata hash) keys mid deleted.2 deleted.1

def processBatch (hash : Hash) : Hash :=
  let stored := call.store lruValue batch hash
  if call.server.hlen stored > call.policy.overflowMargin then call.resolveOverflow stored
  else stored

/-- What `resolve_overflow` is for: few enough keys, of the keys those gone that were used least (by
the times or counts of their uses), and the rows of the others as they were. -/
structure Resolved (used : Key → Int) (before after : Hash) : Prop where
  size : call.server.hlen after ≤ call.policy.resolution
  ranks : call.policy.handler ≠ .evictRandom →
    ∀ evicted survivor, (call.server.get before evicted).isSome →
    call.server.get after evicted = none → (call.server.get after survivor).isSome →
      used evicted ≤ used survivor
  values : ∀ key, (call.server.get after key).isSome →
    call.server.get after key = call.server.get before key

/-! ### Deletion -/

def Erased (keys : List Key) (before after : Hash) : Prop :=
  ∀ key, call.server.get after key = if key ∈ keys then none else call.server.get before key

variable {call} {hash after : Hash} {keys : List Key}

theorem Erased.nil : call.Erased [] hash hash := fun _ => (if_neg not_mem_nil).symm

theorem Erased.append {more : List Key} {middle : Hash} (first : call.Erased keys hash middle)
    (second : call.Erased more middle after) : call.Erased (keys ++ more) hash after := by
  intro key
  rw [second key, first key]
  by_cases early : key ∈ keys <;> by_cases late : key ∈ more <;> simp [early, late]

theorem deleteBatch_erased (hash : Hash) (keys : List Key) :
    call.Erased keys hash (call.deleteBatch hash keys).1 := by
  intro key
  rw [deleteBatch]
  dsimp only
  rw [call.server.get_hdel]
  split
  · rfl
  · rename_i kept
    split
    · rfl
    · rw [call.server.get_hdel, if_neg kept]

theorem Erased.has (erased : call.Erased keys hash after) {key : Key} :
    (call.server.get after key).isSome ↔ key ∉ keys ∧ (call.server.get hash key).isSome := by
  rw [erased]
  by_cases gone : key ∈ keys <;> simp [gone]

theorem Erased.hlen (erased : call.Erased keys hash after) (distinct : keys.Nodup)
    (present : ∀ key ∈ keys, (call.server.get hash key).isSome) :
    call.server.hlen after + keys.length = call.server.hlen hash := by
  rw [call.server.hlen_eq, call.server.hlen_eq]
  exact KeyValue.size_of_erased distinct present fun _ => erased.has

/-- The loop deletes all it was given if that brings the partition down to the margin: the test
after a batch stops it only when nothing is left. -/
theorem deleteLoop_erased {rest keyViews : List Key} {hash : Hash} (partSize : Nat)
    (distinct : (keyViews ++ rest).Nodup)
    (present : ∀ key ∈ keyViews ++ rest, (call.server.get hash key).isSome)
    (size : call.server.hlen hash = call.policy.resolution + (keyViews ++ rest).length) :
    call.Erased (keyViews ++ rest) hash (call.deleteLoop hash partSize rest keyViews).1 := by
  induction rest generalizing hash partSize keyViews with
  | nil =>
    rw [deleteLoop, append_nil]
    split
    · rename_i nothing
      rw [isEmpty_iff.mp nothing]
      exact .nil
    · exact deleteBatch_erased hash keyViews
  | cons key rest ih =>
    rw [append_cons] at distinct present size ⊢
    rw [deleteLoop]
    split
    · exact ih partSize distinct present size
    · have erased :
          call.Erased (keyViews ++ [key]) hash (call.deleteBatch hash (keyViews ++ [key])).1 :=
        deleteBatch_erased _ _
      have left := erased.hlen (nodup_append.mp distinct).1 fun key member =>
        present key (mem_append_left _ member)
      have parts : (keyViews ++ [key] ++ rest).length = (keyViews ++ [key]).length + rest.length :=
        length_append
      have sizeLeft : call.server.hlen (call.deleteBatch hash (keyViews ++ [key])).1 =
          call.policy.resolution + ([] ++ rest).length := by
        rw [nil_append]
        omega
      dsimp only
      split
      · rename_i done
        have nothing : rest = [] := by
          apply eq_nil_of_length_eq_zero
          have counted :
              call.server.hlen (call.deleteBatch hash (keyViews ++ [key])).1 ≤
              call.policy.resolution :=
            done
          rw [sizeLeft, nil_append] at counted
          omega
        rw [nothing, append_nil]
        exact erased
      · refine erased.append (ih _ (nodup_append.mp distinct).2.1 ?_ sizeLeft)
        intro other member
        refine erased.has.mpr ⟨fun early => ?_, present other (mem_append_right _ member)⟩
        exact (nodup_append.mp distinct).2.2 other early other member rfl

/-! ### Resolution -/

variable {used : Key → Int}

theorem resolved_few (few : call.server.hlen hash ≤ call.policy.resolution) :
    call.Resolved used hash hash where
  size := few
  ranks := by
    intro _ _ _ stored gone
    rw [gone] at stored
    exact absurd stored Bool.false_ne_true
  values := fun _ _ => rfl

theorem hlen_eq_length (all : keys.Perm (call.server.keys hash)) :
    call.server.hlen hash = keys.length :=
  (call.server.hlen_eq hash).trans all.length_eq.symm

/-- Deleting all but the first keys of a list of all keys. -/
theorem resolved_deleteLoop (all : keys.Perm (call.server.keys hash))
    (many : call.policy.resolution < keys.length)
    (ranks : call.policy.handler ≠ .evictRandom → ∀ early ∈ keys.take call.policy.resolution,
      ∀ late ∈ keys.drop call.policy.resolution, used late ≤ used early) :
    call.Resolved used hash
      (call.deleteLoop hash keys.length (keys.drop call.policy.resolution) []).1 := by
  have distinct : (keys.drop call.policy.resolution).Nodup :=
    (all.nodup_iff.mpr (call.server.keys_nodup hash)).sublist (drop_sublist _ _)
  have known : ∀ key, key ∈ keys ↔ (call.server.get hash key).isSome := fun key =>
    all.mem_iff.trans (call.server.mem_keys hash key)
  have present : ∀ key ∈ keys.drop call.policy.resolution, (call.server.get hash key).isSome :=
    fun key member =>
    (known key).mp (mem_of_mem_drop member)
  have size : call.server.hlen hash = call.policy.resolution +
      ([] ++ keys.drop call.policy.resolution).length := by
    rw [hlen_eq_length all, nil_append, length_drop]
    omega
  have erased : call.Erased ([] ++ keys.drop call.policy.resolution) hash
      (call.deleteLoop hash keys.length (keys.drop call.policy.resolution) []).1 :=
    deleteLoop_erased keys.length distinct present size
  rw [nil_append] at erased
  exact {
    size := by
      have left := erased.hlen distinct present
      rw [size, nil_append] at left
      exact (Nat.add_right_cancel left).le
    ranks := by
      intro ranked evicted survivor stored gone kept
      have late : evicted ∈ keys.drop call.policy.resolution := by
        by_contra staying
        have still := erased.has.mpr ⟨staying, stored⟩
        rw [gone] at still
        exact Bool.false_ne_true still
      obtain ⟨notDropped, held⟩ := erased.has.mp kept
      have listed : survivor ∈ keys := (known survivor).mpr held
      rw [← take_append_drop call.policy.resolution keys, mem_append] at listed
      exact ranks ranked survivor (listed.resolve_right notDropped) evicted late
    values := by
      intro key kept
      rw [erased, if_neg (erased.has.mp kept).1] }

theorem resolved_random (random : call.policy.handler = .evictRandom) :
    call.Resolved used hash (call.resolveOverflow hash) := by
  have all := call.shuffle.perm (call.server.keys hash)
  rw [resolveOverflow, random]
  dsimp only
  split
  · rename_i few
    exact resolved_few ((hlen_eq_length all).trans_le few)
  · exact resolved_deleteLoop all (by omega) fun other => absurd random other

theorem sorted_perm (before : Key → Key → Bool) (hash : Hash) :
    ((call.shuffle.order (call.server.keys hash)).mergeSort before).Perm (call.server.keys hash) :=
  (mergeSort_perm _ _).trans (call.shuffle.perm _)

/-- The evicted keys are those whose rows begin with the smallest numbers. -/
theorem resolved_lru (lru : call.policy.handler = .evictLRU)
    (agree : call.server.hlen hash ≤ call.policy.resolution ∨
      ∀ key other, (call.server.get hash key).isSome → (call.server.get hash other).isSome →
        call.metadata hash key ≤ call.metadata hash other → used key ≤ used other) :
    call.Resolved used hash (call.resolveOverflow hash) := by
  have all :=
    @sorted_perm Hash Key _ call (fun a b => call.metadata hash b ≤ call.metadata hash a) hash
  rw [resolveOverflow, lru]
  dsimp only
  split
  · rename_i few
    exact resolved_few ((hlen_eq_length all).trans_le few)
  · rename_i many
    have ordered := agree.resolve_left fun few => many ((hlen_eq_length all).symm.trans_le few)
    refine resolved_deleteLoop all (by omega) fun _ early front late behind => ?_
    have held : ∀ {key}, key ∈ (call.shuffle.order (call.server.keys hash)).mergeSort
        (fun a b => call.metadata hash b ≤ call.metadata hash a) →
          (call.server.get hash key).isSome := fun member =>
      (call.server.mem_keys hash _).mp (all.mem_iff.mp member)
    refine ordered late early (held (mem_of_mem_drop behind)) (held (mem_of_mem_take front)) ?_
    exact rank_take_le_drop (fun key => OrderDual.toDual (call.metadata hash key)) _ _ front behind

/-! ### Counts -/

variable (call) in
def SameKeys (before after : Hash) : Prop :=
  ∀ key, (call.server.get after key).isSome ↔ (call.server.get before key).isSome

theorem hincrby_sameKeys {key : Key} (held : (call.server.get hash key).isSome) (delta : Int) :
    call.SameKeys hash (call.server.hincrby hash key delta) := by
  intro other
  rw [call.server.get_hincrby hash key delta other held]
  split
  · rename_i same
    rw [same, Option.isSome_map]
  · rfl

theorem halve_sameKeys {read : Key → Int} {now : Hash} (same : call.SameKeys hash now)
    (present : ∀ key ∈ keys, (call.server.get hash key).isSome) :
    call.SameKeys hash (keys.foldl (call.halve read) now) := by
  induction keys generalizing now with
  | nil => exact same
  | cons field rest ih =>
    refine ih (fun key => ?_) fun key member => present key (mem_cons_of_mem _ member)
    exact (hincrby_sameKeys ((same field).mpr (present field mem_cons_self)) _ key).trans (same key)

/-- The number of keys to evict is never positive. -/
theorem resolveOverflow_lfu (hash : Hash) (lfu : call.policy.handler = .evictLFU) :
    call.SameKeys hash (call.resolveOverflow hash) := by
  rw [resolveOverflow, lfu]
  dsimp only
  split
  · exact fun _ => Iff.rfl
  · have nothing : (call.lfuMid ((call.shuffle.order (call.server.keys hash)).mergeSort
        fun a b => call.metadata hash a ≤ call.metadata hash b).length).toNat = 0 := by
      rw [lfuMid]
      omega
    rw [nothing, take_zero, deleteLoop, halveLoop]
    refine foldlRecOn (motive := fun now => call.SameKeys hash now) _ _ (fun _ => Iff.rfl)
      fun now same t _ => ?_
    refine halve_sameKeys same fun key member => ?_
    exact (call.server.mem_keys hash key).mp
      ((sorted_perm _ hash).mem_iff.mp (mem_of_mem_drop (mem_of_mem_take member)))

theorem resolved_lfu_iff (lfu : call.policy.handler = .evictLFU) :
    call.Resolved used hash (call.resolveOverflow hash) ↔
      call.server.hlen hash ≤ call.policy.resolution := by
  constructor
  · intro resolved
    have same : call.server.hlen (call.resolveOverflow hash) = call.server.hlen hash := by
      rw [call.server.hlen_eq, call.server.hlen_eq]
      exact KeyValue.size_congr (resolveOverflow_lfu hash lfu)
    exact same.symm.trans_le resolved.size
  · intro few
    have all :=
      @sorted_perm Hash Key _ call (fun a b => call.metadata hash a ≤ call.metadata hash b) hash
    have unchanged : call.resolveOverflow hash = hash := by
      rw [resolveOverflow, lfu]
      exact if_pos ((hlen_eq_length all).symm.trans_le few)
    rw [unchanged]
    exact resolved_few few

/-! ### Batches -/

theorem hset_has (batch : List (Key × List UInt8)) (hash : Hash) (key : Key) :
    (call.server.get (batch.foldl (fun hash entry => call.server.hset hash entry.1 entry.2) hash)
      key).isSome ↔
      key ∈ batch.map Prod.fst ∨ (call.server.get hash key).isSome := by
  induction batch generalizing hash with
  | nil => simp
  | cons entry rest ih =>
    rw [foldl_cons, ih, call.server.get_hset, map_cons, mem_cons]
    by_cases same : key = entry.1 <;> simp [same]

/-- The rows are there when the times come, and `HSETNX` keeps them. -/
theorem store_lru (lru : call.policy.handler = .evictLRU) (lruValue : List UInt8)
    (batch : List (Key × List UInt8))
    (hash : Hash) : call.store lruValue batch hash =
      batch.foldl (fun hash entry => call.server.hset hash entry.1 entry.2) hash := by
  rw [store]
  split
  · refine foldlRecOn (motive := fun now => now =
      batch.foldl (fun hash entry => call.server.hset hash entry.1 entry.2) hash) batch _ rfl ?_
    rintro now rfl entry member
    rw [setMeta, lru]
    exact call.server.hsetnx_present _ _ _
      ((hset_has batch hash entry.1).mpr (.inl (mem_map_of_mem member)))
  · rfl

/-- A batch that leaves the partition above its margin, whatever the uses of its keys have been.
Random eviction resolves the overflow. By times, which are not stored, it is resolved if there is
nothing to evict, or if the rows of the keys read as numbers are in the order of the times; by
counts only if there is nothing to evict. -/
theorem process_batch_resolves (call : PartitionCall Hash Key) (used : Key → Int) (hash : Hash)
    (lruValue : List UInt8)
    (batch : List (Key × List UInt8))
    (overflows : call.policy.overflowMargin < call.server.hlen (call.store lruValue batch hash)) :
    let stored := call.store lruValue batch hash
    let resolved := call.Resolved used stored (call.processBatch lruValue batch hash)
    (call.policy.handler = .evictRandom → resolved) ∧
    (call.policy.handler = .evictLRU →
      stored = batch.foldl (fun hash entry => call.server.hset hash entry.1 entry.2) hash) ∧
    (call.policy.handler = .evictLRU → (call.server.hlen stored ≤ call.policy.resolution ∨
      ∀ key other, (call.server.get stored key).isSome → (call.server.get stored other).isSome →
        call.metadata stored key ≤ call.metadata stored other → used key ≤ used other) → resolved) ∧
    (call.policy.handler = .evictLFU →
      (resolved ↔ call.server.hlen stored ≤ call.policy.resolution)) := by
  dsimp only
  rw [processBatch, if_pos overflows]
  exact ⟨resolved_random, fun lru => store_lru lru lruValue batch hash, resolved_lru,
    resolved_lfu_iff⟩

end PartitionCall

/-! ### A server with association lists -/

def text (n : Int) : List UInt8 := (renderLong n).map fun c => UInt8.ofNat c.toNat

def readDecimal : List UInt8 → Int
  | 45 :: digits => -(digits.foldl (fun n digit => 10 * n + (digit.toNat - 48 : Nat)) 0)
  | digits => digits.foldl (fun n digit => 10 * n + (digit.toNat - 48 : Nat)) 0

/-- The text of the sum, if the field is the text of an integer. -/
def incrementText (delta : Int) (field : List UInt8) : List UInt8 :=
  let sum := readDecimal field + delta
  if text (readDecimal field) = field ∧ -2 ^ 63 ≤ sum ∧ sum < 2 ^ 63 then text sum else field

abbrev Fields := AList fun _ : Nat => List UInt8

namespace Fields

def hsetnx (hash : Fields) (key : Nat) (bytes : List UInt8) : Fields :=
  if (hash.lookup key).isSome then hash else hash.insert key bytes

def hincrby (hash : Fields) (key : Nat) (delta : Int) : Fields :=
  match hash.lookup key with
  | none => hash.insert key (text delta)
  | some field => hash.insert key (incrementText delta field)

theorem hsetnx_present (hash : Fields) (key : Nat) (bytes : List UInt8)
    (held : (hash.lookup key).isSome) :
    hsetnx hash key bytes = hash := if_pos held

theorem lookup_hincrby (hash : Fields) (key : Nat) (delta : Int) (other : Nat)
    (held : (hash.lookup key).isSome) :
    (hincrby hash key delta).lookup other =
      if other = key then (hash.lookup key).map (incrementText delta) else hash.lookup other := by
  obtain ⟨field, found⟩ := Option.isSome_iff_exists.mp held
  rw [hincrby, found]
  exact KeyValue.lookup_insert_eq hash key other _

theorem lookup_hdel (hash : Fields) (keys : List Nat) (key : Nat) :
    (keys.foldl (fun hash key => hash.erase key) hash).lookup key = if key ∈ keys then none
      else hash.lookup key := by
  exact lookup_eraseMany keys hash key

def server : Server Fields Nat where
  toKeyValue := .alist
  hset hash key bytes := hash.insert key bytes
  hsetnx := hsetnx
  hincrby := hincrby
  hdel hash keys := keys.foldl (fun hash key => hash.erase key) hash
  hlen hash := hash.keys.length
  incremented := incrementText
  get_hset hash key bytes other := KeyValue.lookup_insert_eq hash key other bytes
  hsetnx_present := hsetnx_present
  get_hincrby := lookup_hincrby
  get_hdel := lookup_hdel
  hlen_eq _ := rfl

end Fields

def smallPartition (handler : OverflowHandler) : PartitionCall Fields Nat where
  server := Fields.server
  partitioned := true
  policy := .keepingOne handler
  maxBatchSize := 64
  maxBatchSize_pos := by decide
  shuffle := .given
  beyond := fun _ _ => 0

/-- One batch for each key; the time is the number of the key. -/
def insertEach (handler : OverflowHandler) (rows : List (Nat × List UInt8)) : Fields :=
  rows.foldl (fun hash entry =>
    (smallPartition handler).processBatch [UInt8.ofNat entry.1, 0, 0, 0, 0, 0, 0, 0] [entry] hash) ∅

/-- Two keys, and the third one of the batch that overflows. -/
def storeThird (handler : OverflowHandler) (first second third : UInt8) : Fields :=
  (smallPartition handler).store [3, 0, 0, 0, 0, 0, 0, 0] [(3, [third])]
    (insertEach handler [(1, [first]), (2, [second])])

theorem insertEach_overflow {handler : OverflowHandler} {first second third : UInt8}
    (overflows : 2 < (storeThird handler first second third).keys.length) :
    insertEach handler [(1, [first]), (2, [second]), (3, [third])] =
      (smallPartition handler).resolveOverflow (storeThird handler first second third) :=
  if_pos overflows

/-- Rows in the order of the times. -/
theorem process_batch_resolves_lru :
    (smallPartition .evictLRU).Resolved (fun key => key) (storeThird .evictLRU 10 20 30)
      (insertEach .evictLRU [(1, [10]), (2, [20]), (3, [30])]) := by
  refine (PartitionCall.process_batch_resolves (smallPartition .evictLRU) (fun key => key)
    (insertEach .evictLRU [(1, [10]), (2, [20])]) [3, 0, 0, 0, 0, 0, 0, 0] [(3, [30])]
      (by decide +kernel)).2.2.1 rfl
    (.inr fun key other held heldOther order => ?_)
  have keys : (storeThird .evictLRU 10 20 30).keys = [3, 2, 1] := by decide +kernel
  have read : ∀ key ∈ [3, 2, 1],
      (smallPartition .evictLRU).metadata (storeThird .evictLRU 10 20 30) key = 10 * key := by
    decide +kernel
  have listed : key ∈ (storeThird .evictLRU 10 20 30).keys :=
    (Fields.server.mem_keys _ key).mpr held
  have listedOther : other ∈ (storeThird .evictLRU 10 20 30).keys :=
    (Fields.server.mem_keys _ other).mpr heldOther
  have ordered : (10 * key : Int) ≤ 10 * other := by
    rw [← read key (keys ▸ listed), ← read other (keys ▸ listedOther)]
    exact order
  omega

/-- Three keys, one of which is to stay. By counts all stay; by times the oldest one, whose row
begins with the largest number. -/
theorem overflow_misses_margin_or_order :
    (smallPartition .evictLFU).policy.resolution = 1 ∧
      (insertEach .evictLFU [(1, [30]), (2, [20]), (3, [10])]).keys.length = 3 ∧
      (insertEach .evictLRU [(1, [30]), (2, [20]), (3, [10])]).keys = [1] := by
  refine ⟨by decide +kernel, ?_, ?_⟩
  · have same : (smallPartition .evictLFU).SameKeys _ _ :=
      PartitionCall.resolveOverflow_lfu (storeThird .evictLFU 30 20 10) rfl
    rw [insertEach_overflow (by decide +kernel)]
    exact (KeyValue.size_congr same).trans (by decide +kernel)
  · have sorted : (((smallPartition .evictLRU).shuffle.order (Fields.server.keys
        (storeThird .evictLRU 30 20 10))).mergeSort fun a b =>
        (smallPartition .evictLRU).metadata (storeThird .evictLRU 30 20 10) b ≤
          (smallPartition .evictLRU).metadata (storeThird .evictLRU 30 20 10) a) = [1, 2, 3] := by
      have keys : (storeThird .evictLRU 30 20 10).keys = [3, 2, 1] := by decide +kernel
      have read : ∀ key ∈ [3, 2, 1],
          (smallPartition .evictLRU).metadata (storeThird .evictLRU 30 20 10) key =
            40 - 10 * key := by
        decide +kernel
      change ((storeThird .evictLRU 30 20 10).keys.mergeSort _) = _
      rw [keys]
      simp [mergeSort, MergeSort.Internal.splitInTwo, read 1 (by decide), read 2 (by decide),
        read 3 (by decide)]
    have resolved : (smallPartition .evictLRU).resolveOverflow (storeThird .evictLRU 30 20 10) =
        ((smallPartition .evictLRU).deleteLoop (storeThird .evictLRU 30 20 10) 3 [2, 3] []).1 := by
      have margin : (smallPartition .evictLRU).policy.resolution = 1 := by decide +kernel
      rw [PartitionCall.resolveOverflow]
      change (if (((smallPartition .evictLRU).shuffle.order (Fields.server.keys _)).mergeSort
        _).length ≤ _ then _ else
        ((smallPartition .evictLRU).deleteLoop _
          (((smallPartition .evictLRU).shuffle.order (Fields.server.keys _)).mergeSort _).length
          ((((smallPartition .evictLRU).shuffle.order (Fields.server.keys _)).mergeSort _).drop _)
            []).1) = _
      rw [sorted, margin, if_neg (by decide)]
      rfl
    rw [insertEach_overflow (by decide +kernel), resolved]
    decide +kernel

end EmbedCache.RedisClusterTable
