import EmbedCache.LayerLookup

/-! The hit counts of a stack.

A table reports hits or misses in its own way, and the layer turns the reports into hits
with a running remainder. The remainder is exact as long as every report before was. -/

namespace EmbedCache

open List

variable {w : Nat} {shape : RowShape}

/-! ### Counting keys -/

theorem countP_eq_range {α : Type*} (keys : List α) (p : α → Bool) :
    keys.countP p = (List.range keys.length).countP fun i => keys[i]?.any p := by
  induction keys with
  | nil => rfl
  | cons key keys ih =>
    rw [countP_cons, ih, length_cons, range_succ_eq_map, countP_cons, countP_map]
    rfl

variable (tables : List (LayerTable w shape))

def unresolved (keys : List (BitVec w)) : Nat :=
  keys.countP fun key => (firstRow tables key).isNone

def resolvedFirst (early : List (LayerTable w shape)) (table : LayerTable w shape)
    (keys : List (BitVec w)) : Nat :=
  keys.countP fun key => (firstRow early key).isNone && (table.content key).isSome

def maskOf (keys : List (BitVec w)) : Nat → Bool :=
  maskAfter (firstRow tables) keys fun _ => false

section Count

variable (early : List (LayerTable w shape)) (table : LayerTable w shape) (keys : List (BitVec w))

theorem openKeys_maskOf : openKeys keys (maskOf early keys) = unresolved early keys := by
  rw [openKeys, unresolved, countP_eq_range keys]
  refine countP_congr fun i member => ?_
  have inside := mem_range.mp member
  rw [maskOf, maskAfter_empty _ _ inside, List.getElem?_eq_getElem inside, Option.any_some,
    Option.not_isSome]

theorem newHits_eq (content : BitVec w → Option (Nat → UInt8)) :
    newHits content keys (maskOf early keys) =
      keys.countP fun key => (firstRow early key).isNone && (content key).isSome := by
  rw [newHits, countP_eq_range keys]
  refine countP_congr fun i member => ?_
  have inside := mem_range.mp member
  rw [chosenRow, maskOf, maskAfter_empty _ _ inside, List.getElem?_eq_getElem inside,
    Option.any_some, Option.bind_some]
  cases firstRow early keys[i] <;> simp

theorem newHits_maskOf :
    newHits table.content keys (maskOf early keys) = resolvedFirst early table keys :=
  newHits_eq early keys table.content

theorem maskOf_concat : maskAfter table.content keys (maskOf early keys) =
    maskOf (early ++ [table]) keys := by
  have last : firstRow [table] = table.content := by
    rw [firstRow_cons]
    funext key
    simp [orContents, firstRow_nil]
  funext i
  rw [maskOf, maskAfter_or, maskOf, firstRow_append, last]

theorem unresolved_concat : unresolved early keys =
    resolvedFirst early table keys + unresolved (early ++ [table]) keys := by
  have split := newHits_add_newMisses table.content keys (maskOf early keys)
  rw [newMisses_eq, maskOf_concat, openKeys_maskOf, openKeys_maskOf, newHits_maskOf] at split
  exact split.symm

theorem unresolved_nil : unresolved ([] : List (LayerTable w shape)) keys = keys.length := by
  simp [unresolved, firstRow_nil]

end Count

namespace HierarchicalEmbeddingLayer

/-! ### Reports -/

section Reports

variable (keys : List (BitVec w))

def reportedHits (early : List (LayerTable w shape)) (table : LayerTable w shape) (left : Int) :
    Int :=
  if table.kind.countsHits then table.counts keys (maskOf early keys) else left -
    table.counts keys (maskOf early keys)

variable (early tables : List (LayerTable w shape))

def countedAfter : List (Bool × Nat) :=
  (tables.map fun table => table.kind.countsHits).zip (stackCounts keys tables (maskOf early keys))

theorem accountHits_cons {table : LayerTable w shape} (masked : table.kind.isUvm = false)
    (left : Int) : accountHits (countedAfter keys early (table :: tables)) left =
      let hits := reportedHits keys early table left
      let later := accountHits (countedAfter keys (early ++ [table]) tables) (left - hits)
      (⟨hits, if left = 0 then none else some (hits / left)⟩ :: later.1, later.2) := by
  simp only [countedAfter, map_cons, stackCounts, zip_cons_cons, accountHits,
    table.marks_of_masked masked, maskOf_concat, reportedHits]

structure Countable (early : List (LayerTable w shape)) (table : LayerTable w shape) : Prop where
  open_keys : 0 < unresolved early keys
  uncounted : table.kind = .gpuCache false → unresolved (early ++ [table]) keys = 0
  linear : table.kind = .hostLinear → unresolved early keys = keys.length

variable (early : List (LayerTable w shape))

theorem linear_resolves {table : LayerTable w shape} (linear : table.kind = .hostLinear) :
    unresolved (early ++ [table]) keys = 0 := by
  rw [unresolved, countP_eq_zero]
  intro key _
  have present := table.total (by simp [linear, TableKind.isLinear]) key
  have found : (firstRow (early ++ [table]) key).isSome := by
    rw [firstRow_isSome_iff]
    exact ⟨table, by simp, present⟩
  simpa [← Option.isSome_iff_ne_none] using found

theorem reportedHits_eq_iff (table : LayerTable w shape) (masked : table.kind.isUvm = false) :
    reportedHits keys early table (unresolved early keys) = resolvedFirst early table keys ↔
      (table.kind = .gpuCache false → unresolved (early ++ [table]) keys = 0) ∧
      (table.kind = .hostLinear → unresolved early keys = keys.length) := by
  have split := unresolved_concat early table keys
  cases kind : table.kind with
  | gpuCache countMisses =>
    cases countMisses with
    | true =>
      have misses : table.counts keys (maskOf early keys) = unresolved (early ++ [table]) keys := by
        simp only [LayerTable.counts, kind]
        rw [newMisses_eq, maskOf_concat, openKeys_maskOf]
      simp only [reportedHits, kind, TableKind.countsHits, TableKind.onGpu, misses]
      simp
      omega
    | false =>
      have zero : table.counts keys (maskOf early keys) =
          0 := by simp only [LayerTable.counts, kind]
      simp only [reportedHits, kind, TableKind.countsHits, TableKind.onGpu, zero]
      simp
      omega
  | gpuUvm countMisses cached => simp [kind, TableKind.isUvm] at masked
  | hostMap numParts partitioner =>
    have hits : table.counts keys (maskOf early keys) = resolvedFirst early table keys := by
      simp only [LayerTable.counts, kind]
      exact newHits_maskOf early table keys
    simp [reportedHits, kind, TableKind.countsHits, TableKind.onGpu, hits]
  | hostLinear =>
    have all : table.counts keys (maskOf early keys) =
        keys.length := by simp only [LayerTable.counts, kind]
    have none := linear_resolves keys early kind
    simp only [reportedHits, kind, TableKind.countsHits, TableKind.onGpu, all]
    simp
    omega

variable (tables early : List (LayerTable w shape))

/-- The accounts of tables that follow others are exact under these conditions, and only then. -/
theorem accountHits_exact_iff (masked : ∀ table ∈ tables, table.kind.isUvm = false) :
    ((accountHits (countedAfter keys early tables) (unresolved early keys)).1.map
      (fun account => account.hits) =
        tables.mapIdx (fun i table => (resolvedFirst (early ++ tables.take i) table keys : Int)) ∧
      ∀ account ∈ (accountHits (countedAfter keys early tables) (unresolved early keys)).1,
        ∃ rate, account.rate = some rate ∧ 0 ≤ rate ∧ rate ≤ 1) ↔
      ∀ i table, tables[i]? = some table → Countable keys (early ++ tables.take i) table := by
  induction tables generalizing early with
  | nil => simp [countedAfter, accountHits]
  | cons table tables ih =>
    have later := ih (early ++ [table]) fun other member => masked other (mem_cons_of_mem _ member)
    have exact_iff := reportedHits_eq_iff keys early table (masked table (mem_cons_self ..))
    have split := unresolved_concat early table keys
    have conditions : (∀ i other, (table :: tables)[i]? = some other →
          Countable keys (early ++ (table :: tables).take i) other) ↔
        Countable keys early table ∧ ∀ i other, tables[i]? = some other →
          Countable keys (early ++ [table] ++ tables.take i) other := by
      constructor
      · intro all
        refine ⟨by simpa using all 0 table rfl, fun i other here => ?_⟩
        simpa using all (i + 1) other here
      · rintro ⟨first, rest⟩ i other here
        cases i with
        | zero =>
          have same : table = other := by simpa using here
          simpa [← same] using first
        | succ i => simpa using rest i other (by simpa using here)
    have rows : (table :: tables).mapIdx
          (fun i other => (resolvedFirst (early ++ (table :: tables).take i) other keys : Int)) =
        (resolvedFirst early table keys : Int) ::
          tables.mapIdx fun i other =>
            (resolvedFirst (early ++ [table] ++ tables.take i) other keys : Int) := by
      simp [mapIdx_cons]
    rw [conditions, rows, accountHits_cons keys early tables (masked table mem_cons_self)]
    simp only [map_cons, List.cons.injEq, forall_mem_cons]
    constructor
    · rintro ⟨⟨hits, laterHits⟩, ⟨rate, defined, _⟩, laterRates⟩
      have remainder :
          (unresolved early keys : Int) - reportedHits keys early table (unresolved early keys) =
          (unresolved (early ++ [table]) keys : Int) := by
        rw [hits]
        omega
      have some_open : 0 < unresolved early keys := by
        by_contra zero
        have none : (unresolved early keys : Int) = 0 := by omega
        rw [if_pos none] at defined
        exact absurd defined (by simp)
      rw [remainder] at laterHits laterRates
      exact ⟨⟨some_open, (exact_iff.mp hits).1, (exact_iff.mp hits).2⟩,
        later.mp ⟨laterHits, laterRates⟩⟩
    · rintro ⟨first, rest⟩
      have hits := exact_iff.mpr ⟨first.uncounted, first.linear⟩
      have remainder :
          (unresolved early keys : Int) - reportedHits keys early table (unresolved early keys) =
          (unresolved (early ++ [table]) keys : Int) := by
        rw [hits]
        omega
      have some_open := first.open_keys
      have laterExact := later.mpr rest
      rw [remainder]
      refine ⟨⟨hits, laterExact.1⟩, ⟨_, if_neg (by omega), ?_, ?_⟩, laterExact.2⟩
      · rw [hits]
        positivity
      · rw [hits, div_le_one (by exact_mod_cast some_open)]
        exact_mod_cast (by omega : resolvedFirst early table keys ≤ unresolved early keys)

/-- Every key is resolved by one table, or by none. -/
theorem sum_resolvedFirst :
    (tables.mapIdx fun i table => (resolvedFirst (early ++ tables.take i) table keys : Int)).sum +
      unresolved (early ++ tables) keys = unresolved early keys := by
  induction tables generalizing early with
  | nil => simp
  | cons table tables ih =>
    have rest := ih (early ++ [table])
    have split := unresolved_concat early table keys
    simp only [append_assoc, singleton_append] at rest
    simp only [mapIdx_cons, take_zero, append_nil, take_succ_cons, sum_cons]
    omega

end Reports

/-! ### Hit rates of a lookup -/

/-- The hit rates count each key for the table that resolves it, and the rates of the tables are
rates. -/
structure HitsExact (tables : List (LayerTable w shape)) (call : LookupCall w)
    (result : LookupResult w) : Prop where
  hitrates : result.hitrates.map (fun rate : ℚ => rate * call.numKeys) =
    tables.mapIdx fun i table => (resolvedFirst (tables.take i) table call.keys : ℚ)
  total : (result.hitrates.map fun rate : ℚ => rate * call.numKeys).sum +
    unresolved tables call.keys = call.numKeys
  rates : ∀ account ∈ result.accounts, ∃ rate, account.rate = some rate ∧ 0 ≤ rate ∧ rate ≤ 1

section

variable {tables gpus hosts : List (LayerTable w shape)} {defaultEmbedding : Option (Nat → UInt8)}
  {call : LookupCall w} {result : LookupResult w}
  (delivered : Delivered tables gpus hosts defaultEmbedding call result)

include delivered

theorem Delivered.hits_eq
    (some_keys : 0 < call.numKeys) : result.hitrates.map (fun rate : ℚ => rate * call.numKeys) =
      result.accounts.map fun account => (account.hits : ℚ) := by
  have nonzero : (call.numKeys : ℚ) ≠ 0 := by exact_mod_cast some_keys.ne'
  rw [delivered.hitrates, map_map]
  apply map_congr_left
  intro account _
  exact div_mul_cancel₀ _ nonzero

theorem Delivered.accounts_eq :
    result.accounts =
      (accountHits (countedAfter call.keys [] tables)
      (unresolved ([] : List (LayerTable w shape)) call.keys)).1 ∧
    result.left =
      (accountHits (countedAfter call.keys [] tables)
      (unresolved ([] : List (LayerTable w shape)) call.keys)).2 := by
  have start : maskOf ([] : List (LayerTable w shape)) call.keys = fun _ => false := by
    funext i
    cases present : call.keys[i]? <;> simp [maskOf, maskAfter, chosenRow, firstRow_nil, present]
  have accounted := delivered.accounted
  rw [unresolved_nil, countedAfter, start, LookupCall.keys_length]
  exact ⟨congrArg Prod.fst accounted, congrArg Prod.snd accounted⟩

end

/-- Hit accounting is exact when every table finds keys left, a GPU table that does not count its
misses resolves all of them, and a linear host table comes before any hit; otherwise it is not. -/
theorem hits_exact_iff {tables : List (LayerTable w shape)}
    {defaultEmbedding : Option (Nat → UInt8)}
    (accepted : Accepts tables defaultEmbedding)
    (masked : ∀ table ∈ tables, table.kind.isUvm = false)
    (call : LookupCall w) (some_keys : 0 < call.numKeys) :
    (∃ result, lookup tables defaultEmbedding call = some result ∧ HitsExact tables call result) ↔
      ∀ i table, tables[i]? = some table → Countable call.keys (tables.take i) table := by
  obtain ⟨gpus, hosts, stack, defaults⟩ := accepted.stack
  obtain ⟨result, returned, _, delivered⟩ := stack.lookup call some_keys defaultEmbedding defaults
  have hits := delivered.hits_eq some_keys
  have accounts := delivered.accounts_eq.1
  have exact_iff := accountHits_exact_iff call.keys tables [] masked
  simp only [nil_append, ← accounts] at exact_iff
  have casts : tables.mapIdx (fun i table => (resolvedFirst (tables.take i) table call.keys : ℚ)) =
      (tables.mapIdx fun i table => (resolvedFirst (tables.take i) table call.keys : Int)).map
        (Int.cast : Int → ℚ) := by
    apply ext_getElem?
    intro i
    simp only [List.getElem?_map, List.getElem?_mapIdx]
    cases tables[i]? <;> simp
  have sum := sum_resolvedFirst call.keys tables []
  simp only [nil_append, unresolved_nil, LookupCall.keys_length] at sum
  have hitsCast : result.accounts.map (fun account => (account.hits : ℚ)) =
      (result.accounts.map fun account => account.hits).map (Int.cast : Int → ℚ) := by
    rw [map_map]
    rfl
  rw [← exact_iff]
  constructor
  · rintro ⟨other, same, exact⟩
    obtain rfl : result = other := Option.some.inj (returned.symm.trans same)
    refine ⟨?_, exact.rates⟩
    have equal := exact.hitrates
    rw [hits, casts, hitsCast] at equal
    exact map_injective_iff.mpr Int.cast_injective equal
  · rintro ⟨equal, rates⟩
    refine ⟨result, returned, ?_, ?_, rates⟩
    · rw [hits, casts, hitsCast, equal]
    · rw [hits, hitsCast, equal]
      rw [← Int.cast_list_sum]
      exact_mod_cast sum

/-! Small stacks over rows of two bytes. -/

def pairRows : RowShape := ⟨2, 2, by decide, by decide⟩

def cacheOf (countMisses : Bool) (held : List (BitVec 8)) : LayerTable 8 pairRows where
  kind := .gpuCache countMisses
  device := 0
  content := fun key => if key ∈ held then some fun _ => 1 else none
  total := by simp [TableKind.isLinear]
  even := fun _ => rfl

def mapOf (held : List (BitVec 8)) : LayerTable 8 pairRows where
  kind := .hostMap 1 fun _ => 0
  device := 0
  content := fun key => if key ∈ held then some fun _ => 2 else none
  total := by simp [TableKind.isLinear]
  even := by simp [TableKind.onGpu]

def linearRows : LayerTable 8 pairRows where
  kind := .hostLinear
  device := 0
  content := fun _ => some fun _ => 3
  total := fun _ _ => rfl
  even := by simp [TableKind.onGpu]

def callOf (keys : List (BitVec 8)) (outputPlacement : MemoryType) : LookupCall 8 where
  numKeys := keys.length
  keysPlacement := .host
  outputPlacement := outputPlacement
  hitmaskPlacement := some .host
  keyMemory := fun _ i => keys.getD i 0
  outputMemory := fun mirror _ => if mirror = .caller then 9 else 7
  maskMemory := fun _ _ => true

theorem accepts_two {first second : LayerTable 8 pairRows} (host : second.kind.onGpu = false)
    (defaultEmbedding : Option (Nat → UInt8)) : Accepts [first, second] defaultEmbedding := by
  refine ⟨by simp, ?_, by simp [host]⟩
  simp [deviceId, host]

/-- A cache that counts its misses, then a map: every key counts once. -/
theorem hits_exact_cache_map : ∃ result,
    lookup [cacheOf true [1], mapOf [2]] none (callOf [1, 2] .host) = some result ∧
      HitsExact [cacheOf true [1], mapOf [2]] (callOf [1, 2] .host) result := by
  refine (hits_exact_iff (accepts_two rfl none) (by simp [cacheOf, mapOf, TableKind.isUvm]) _
    (by decide)).mpr ?_
  intro i table here
  rcases i with _ | _ | i
  · obtain rfl := Option.some.inj here
    exact ⟨by decide, by simp [cacheOf], by simp [cacheOf]⟩
  · obtain rfl := Option.some.inj here
    exact ⟨by decide, by simp [mapOf], by simp [mapOf]⟩
  · simp at here

/-- One of two keys is in a cache. A linear table after it reports both keys; a cache that does not
count its misses reports both as well; and behind a table with all keys there is no rate. -/
theorem hits_not_exact :
    (Accepts [cacheOf true [1], linearRows] none ∧
      resolvedFirst [cacheOf true [1]] linearRows [1, 2] = 1 ∧
      (lookup [cacheOf true [1], linearRows] none (callOf [1, 2] .host)).map
        (fun result => result.hitrates) =
        some [1 / 2, 1]) ∧
    (Accepts [cacheOf false [1], mapOf []] none ∧ resolvedFirst [] (cacheOf false [1]) [1, 2] = 1 ∧
      (lookup [cacheOf false [1], mapOf []] none (callOf [1, 2] .host)).map
        (fun result => result.hitrates) =
        some [1, 0]) ∧
    Accepts [mapOf [1, 2], mapOf []] none ∧
      (lookup [mapOf [1, 2], mapOf []] none (callOf [1, 2] .host)).map
        (fun result => result.accounts) =
        some [⟨2, some 1⟩, ⟨0, none⟩] :=
  ⟨⟨accepts_two rfl none, by decide, by decide +kernel⟩,
    ⟨accepts_two rfl none, by decide, by decide +kernel⟩,
    accepts_two rfl none, by decide +kernel⟩

end HierarchicalEmbeddingLayer

end EmbedCache
