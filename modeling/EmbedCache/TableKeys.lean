import EmbedCache.LiveKeys
import EmbedCache.Lib.Runs

/-! A `GpuTable` hits only on live keys exactly when its empty marker rebuilds no key. -/

namespace EmbedCache

open Lib List Option CacheSADeviceModify CacheSAHostModify

variable {w : Nat} {C : Type*}

theorem addToBins_keys (buffer : RowBuffer) (bins : List (Bin w)) (indexed : BitVec w × Nat) :
    ∀ bin ∈ addToBins buffer bins indexed, bin.key = indexed.1 ∨
      ∃ old ∈ bins, old.key = bin.key := by
  intro bin member
  unfold addToBins at member
  split at member
  · rcases mem_map.mp member with ⟨old, present, rfl⟩
    refine .inr ⟨old, present, ?_⟩
    split <;> rfl
  · rcases mem_append.mp member with old | new
    · exact .inr ⟨bin, old, rfl⟩
    · rw [mem_singleton.mp new]
      exact .inl rfl

theorem histogramBins_keys (keys : List (BitVec w)) (buffer : RowBuffer) :
    ∀ bin ∈ histogramBins keys buffer, bin.key ∈ keys := by
  have general : ∀ (rest : List (BitVec w × Nat)) (bins : List (Bin w)),
      (∀ indexed ∈ rest, indexed.1 ∈ keys) →
      (∀ bin ∈ bins, bin.key ∈ keys) → ∀ bin ∈ rest.foldl (addToBins buffer) bins,
        bin.key ∈ keys := by
    intro rest
    induction rest with
    | nil => exact fun _ _ inside => inside
    | cons indexed rest ih =>
      intro bins batch inside
      apply ih _ (fun other member => batch other (mem_cons_of_mem _ member))
      intro bin member
      rcases addToBins_keys buffer bins indexed bin member with own | ⟨old, present, same⟩
      · exact own ▸ batch indexed mem_cons_self
      · exact same ▸ inside old present
  apply general
  · intro indexed member
    exact mem_of_getElem? (mem_zipIdx_iff_getElem?.mp member)
  · simp

theorem histogramItems_keys (share : Nat → Nat → C) (order : Arrangement (Bin w))
    (keys : List (BitVec w))
    (buffer : RowBuffer) : ∀ item ∈ histogramItems share order keys buffer, item.key ∈ keys := by
  intro item member
  rcases mem_map.mp member with ⟨bin, inside, rfl⟩
  exact histogramBins_keys keys buffer bin ((order.perm _).mem_iff.mp inside)

theorem runParts_invariant {step : Nat → List (BitVec w) → CacheState w C →
      Option (ECError × CacheState w C)}
    (invariant : CacheState w C → Prop)
    (preserved : ∀ start keys state next, step start keys state = some (.success, next) →
      invariant state → invariant next)
    (parts : List (Nat × List (BitVec w))) (state after : CacheState w C)
    (result : runParts step parts state = some (.success, after)) (before : invariant state) :
      invariant after := by
  induction parts generalizing state with
  | nil =>
    have pair := some.inj result
    have same : state = after := (Prod.ext_iff.mp pair).2
    exact same ▸ before
  | cons part rest ih =>
    unfold runParts at result
    split at result
    · exact absurd result (by simp)
    · rename_i next taken
      exact ih next result (preserved _ _ _ _ taken before)
    · rename_i code next failed _
      have pair := some.inj result
      exact absurd (Prod.ext_iff.mp pair).1 failed

theorem accumulateRefusal_ne_success {format : DataTypeFormat} {code : ECError}
    (rejected : accumulateRefusal format = some code) : code ≠ .success := by
  cases format <;> simp [accumulateRefusal] at rejected
  rw [← rejected]
  decide

namespace GpuTable

inductive TableCall (w : Nat)
  | clear
  | erase (keys : List (BitVec w))
  | insert (keys : List (BitVec w)) (valueSize : Int) (buffer : RowBuffer)
  | update (keys : List (BitVec w)) (updateSize : Int) (buffer : RowBuffer)
  | updateAccumulate (updateDtype : DataType) (keys : List (BitVec w)) (updateSize : Int)
    (buffer : RowBuffer)

structure TableRequest (w : Nat) where
  call : TableCall w
  binOrder : Arrangement (Bin w)
  env : Nat → Environment w

def TableCall.record (live : Set (BitVec w)) : TableCall w → Set (BitVec w)
  | .clear => ∅
  | .erase keys => live \ {key | key ∈ keys}
  | .insert keys _ _ => live ∪ {key | key ∈ keys}
  | .update _ _ _ => live
  | .updateAccumulate _ _ _ _ => live

/-- On the device class, an insert of at most `2 ^ 24` bins and an erase with a thread for every
way it matches. -/
def TableCall.Within (config : GPUTableConfig) (cfg : CacheConfig w C) (state : CacheState w C) :
    TableCall w → Prop
  | .insert keys _ buffer => config.modifyOnGpu = true →
      min config.maxModifySize.toNat (histogramBins keys buffer).length ≤ 2 ^ 24
  | .erase keys => config.modifyOnGpu = true →
      (computeSetInvalidateData cfg 0 keys state.dTags).length ≤ launched32 keys.length
  | _ => True

section Run

variable [LinearOrder C] [Zero C] [Add C] [Mul C]

def perform (config : GPUTableConfig) (cfg : CacheConfig w C) (arithmetic : RowArithmetic)
    (share : Nat → Nat → C)
    (request : TableRequest w) (state : CacheState w C) : Option (ECError × CacheState w C) :=
  match request.call with
  | .clear => clear cfg (request.env 0) state
  | .erase keys => erase config cfg arithmetic (request.env 0) keys state
  | .insert keys valueSize buffer =>
    insert config cfg arithmetic share request.binOrder (request.env 0) keys valueSize buffer state
  | .update keys updateSize buffer =>
    update config cfg arithmetic request.env keys updateSize buffer state
  | .updateAccumulate updateDtype keys updateSize buffer =>
    updateAccumulate config cfg arithmetic request.env updateDtype keys updateSize buffer state

structure Tracked (w : Nat) (C : Type*) where
  state : CacheState w C
  live : Set (BitVec w)

/-- An operation that completes, with no failing CUDA call, within the ranges of the kernels. -/
structure StepWithin (config : GPUTableConfig) (cfg : CacheConfig w C) (arithmetic : RowArithmetic)
    (share : Nat → Nat → C) (tracked : Tracked w C) (request : TableRequest w)
    (next : Tracked w C) : Prop where
  calls : ∀ i call, (request.env i).outcome call = .success
  within : request.call.Within config cfg tracked.state
  result : perform config cfg arithmetic share request tracked.state = some (.success, next.state)
  live : next.live = request.call.record tracked.live

def Live (config : GPUTableConfig) (cfg : CacheConfig w C) (live : Set (BitVec w)) :
    CacheState w C → Prop
  | .host state => config.modifyOnGpu = false ∧ CacheSAHostModify.Live cfg live state
  | .device state => config.modifyOnGpu = true ∧ CacheSADeviceModify.Live cfg live state

variable {config : GPUTableConfig} {cfg : CacheConfig w C} {live : Set (BitVec w)}

omit [Add C] [Mul C] in
theorem Live.covered {state : CacheState w C} (before : Live config cfg live state) :
    Covered cfg state.dTags live := by
  cases state with
  | host state =>
    have synced := before.2.synced
    simp only [CacheState.dTags, synced]
    exact before.2.covered
  | device state => exact before.2.covered

omit [Add C] [Mul C] in
theorem Live.withCache {state : CacheState w C} (before : Live config cfg live state)
    (memory : Memory) :
    Live config cfg live (state.withCache memory) := by
  cases state with
  | host state => exact ⟨before.1, before.2.synced, before.2.covered⟩
  | device state => exact ⟨before.1, before.2.counters, before.2.covered⟩

variable {state after : CacheState w C}

omit [LinearOrder C] [Zero C] [Add C] [Mul C] in
theorem withContext_success {call : Option (ECError × CacheState w C)}
    (result : withContext config state call = some (.success, after)) :
      call = some (.success, after) := by
  unfold withContext at result
  split at result
  · exact absurd (congrArg Prod.fst (some.inj result)) (by simp)
  · exact result

omit [LinearOrder C] [Zero C] [Add C] [Mul C] in
theorem onDevice_success {result : Option (ECError × DeviceState w C)} {after : CacheState w C}
    (success : result.map onDevice = some (.success, after)) :
    ∃ state, result = some (.success, state) ∧ after = .device state := by
  rcases map_eq_some_iff.mp success with ⟨⟨code, state⟩, defined, pair⟩
  rcases Prod.ext_iff.mp pair with ⟨ok, same⟩
  have code_ok : code = .success := ok
  exact ⟨state, code_ok ▸ defined, same.symm⟩

omit [LinearOrder C] [Zero C] [Add C] [Mul C] in
theorem onHost_success {result : ECError × HostState w C} {after : CacheState w C}
    (success : some (onHost result) = some (.success, after)) :
    ∃ state, result = (.success, state) ∧ after = .host state := by
  rcases Prod.ext_iff.mp (some.inj success) with ⟨ok, same⟩
  exact ⟨result.2, Prod.ext ok rfl, same.symm⟩

variable (sized : Sized cfg 0) (arithmetic : RowArithmetic)

include sized

omit [Add C] [Mul C] in
theorem clear_live (env : Environment w) (before : Live config cfg live state)
    (result : clear cfg env state = some (.success, after)) : Live config cfg ∅ after := by
  cases state with
  | host state =>
    rcases onHost_success result with ⟨next, ok, rfl⟩
    exact ⟨before.1, clearCache_live sized before.2 ok⟩
  | device state =>
    rcases Prod.ext_iff.mp (some.inj result) with ⟨ok, same⟩
    have shape : after = .device (clearCache cfg env.outcome state).2 := same.symm
    subst shape
    exact ⟨before.1, clearCache_live sized before.2 (Prod.ext ok rfl)⟩

omit [Add C] [Mul C] in
theorem erase_live (env : Environment w) (calls : ∀ call, env.outcome call = .success)
    (keys : List (BitVec w))
    (within : (TableCall.erase keys).Within config cfg state)
    (before : Live config cfg live state)
    (result : erase config cfg arithmetic env keys state = some (.success, after)) :
    Live config cfg (live \ {key | key ∈ keys}) after := by
  have done := withContext_success result
  cases state with
  | host state =>
    rcases map_eq_some_iff.mp done with ⟨⟨code, next⟩, defined, pair⟩
    rcases onHost_success (congrArg some pair) with ⟨next, ok, rfl⟩
    exact ⟨before.1, invalidate_live sized before.2 (ok ▸ defined)⟩
  | device state =>
    rcases onDevice_success done with ⟨next, defined, rfl⟩
    exact ⟨before.1, invalidate_live sized env.atomicOrder env.outcome _ keys calls
      (within before.1) before.2 defined⟩

theorem insert_live (laws : SetWork.CounterLaws C) (decay : 0 ≤ cfg.decayRate)
    {share : Nat → Nat → C}
    (shares : ∀ count total, 0 ≤ share count total) (order : Arrangement (Bin w))
    (env : Environment w)
    (keys : List (BitVec w)) (valueSize : Int) (buffer : RowBuffer)
    (within : (TableCall.insert keys valueSize buffer).Within config cfg state)
    (before : Live config cfg live state)
    (result : insert config cfg arithmetic share order env keys valueSize buffer state =
      some (.success, after)) :
    Live config cfg (live ∪ {key | key ∈ keys}) after := by
  have inside := histogramItems_keys share order keys buffer
  unfold insert at result
  split at result
  · exact absurd (congrArg Prod.fst (some.inj result)) (by simp)
  · have done := withContext_success result
    dsimp only at done
    cases state with
    | host state =>
      rcases onHost_success done with ⟨next, ok, rfl⟩
      have kept := insert_live sized before.2 ok
      refine ⟨before.1, kept.synced, kept.covered.mono (Set.union_subset_union_right live ?_)⟩
      intro key member
      rcases mem_map.mp member with ⟨item, present, rfl⟩
      exact inside item present
    | device state =>
      rcases onDevice_success done with ⟨next, defined, rfl⟩
      have few :
          (List.take config.maxModifySize.toNat (histogramItems share order keys buffer)).length ≤
          2 ^ 24 := by
        have bound := within before.1
        rw [length_take, histogramItems, length_map, (order.perm _).length_eq]
        exact bound
      have priorities :
          ∀ item ∈ List.take config.maxModifySize.toNat (histogramItems share order keys buffer),
          0 ≤ item.priority := by
        intro item member
        rcases mem_map.mp (mem_of_mem_take member) with ⟨bin, _, rfl⟩
        exact shares _ _
      have kept := insert_live sized laws decay env.atomicOrder env.outcome _ _ priorities few
        before.2 defined
      refine ⟨before.1, kept.counters, kept.covered.mono (Set.union_subset_union_right live ?_)⟩
      intro key member
      rcases mem_map.mp member with ⟨item, present, rfl⟩
      exact inside item (mem_of_mem_take present)

variable (apart : SentinelApart config cfg)

include apart

omit [Add C] [Mul C] in
theorem update_live (env : Nat → Environment w) (keys : List (BitVec w)) (updateSize : Int)
    (buffer : RowBuffer)
    (before : Live config cfg live state)
    (result : update config cfg arithmetic env keys updateSize buffer state =
      some (.success, after)) :
    Live config cfg live after := by
  unfold update at result
  split at result
  · exact absurd (congrArg Prod.fst (some.inj result)) (by simp)
  · refine runParts_invariant (Live config cfg live) ?_ _ state after
      (withContext_success result) before
    intro start part state next taken before
    cases state with
    | host state =>
      rcases onHost_success taken with ⟨next, ok, rfl⟩
      exact ⟨before.1, modify_hits_live sized before.2 (by simp) ok⟩
    | device state =>
      rcases onDevice_success taken with ⟨after, defined, rfl⟩
      exact ⟨before.1, CacheSADeviceModify.update_live sized apart _ _ _ part _ before.2 defined⟩

omit [Add C] [Mul C] in
theorem updateAccumulate_live (env : Nat → Environment w) (updateDtype : DataType)
    (keys : List (BitVec w))
    (updateSize : Int) (buffer : RowBuffer) (before : Live config cfg live state)
    (result : updateAccumulate config cfg arithmetic env updateDtype keys updateSize buffer state =
      some (.success, after)) :
    Live config cfg live after := by
  have refused : ∀ {code : ECError} {state : CacheState w C}, code ≠ .success →
      some (code, state) ≠ some (.success, after) :=
    fun failed same => failed (congrArg Prod.fst (some.inj same))
  unfold updateAccumulate at result
  split at result
  · have same : state = after := congrArg Prod.snd (some.inj result)
    exact same ▸ before
  · split at result
    · exact absurd result (refused (by simp))
    · split at result
      · split at result
        · split at result
          · rename_i code rejected
            exact absurd result (refused (accumulateRefusal_ne_success rejected))
          · split at result
            · have same := congrArg Prod.snd (some.inj result)
              dsimp only at same
              rw [← same]
              exact before.withCache _
            · rename_i failed
              exact absurd result (refused failed)
        · refine runParts_invariant (Live config cfg live) ?_ _ state after
            (withContext_success result) before
          intro start part state next taken before
          cases state with
          | host state =>
            rcases onHost_success taken with ⟨next, ok, rfl⟩
            exact ⟨before.1, modify_hits_live sized before.2 (by simp) ok⟩
          | device state =>
            rcases onDevice_success taken with ⟨after, defined, rfl⟩
            exact ⟨before.1, CacheSADeviceModify.updateAccumulate_live sized apart arithmetic _ _
              _ _ _ part _
              before.2 defined⟩
      · exact absurd result (refused (by simp))

theorem step_live (laws : SetWork.CounterLaws C) (decay : 0 ≤ cfg.decayRate) {share : Nat → Nat → C}
    (shares : ∀ count total, 0 ≤ share count total) (tracked next : Tracked w C)
    (request : TableRequest w)
    (taken : StepWithin config cfg arithmetic share tracked request next)
    (before : Live config cfg tracked.live tracked.state) :
      Live config cfg next.live next.state := by
  rcases taken with ⟨calls, within, result, live⟩
  rw [live]
  rcases request with ⟨call, binOrder, env⟩
  cases call with
  | clear => exact clear_live sized _ before result
  | erase keys => exact erase_live sized arithmetic _ (calls 0) keys within before result
  | insert keys valueSize buffer =>
    exact insert_live sized arithmetic laws decay shares _ _ keys valueSize buffer within
      before result
  | update keys updateSize buffer =>
    exact update_live sized arithmetic apart env keys updateSize buffer before result
  | updateAccumulate updateDtype keys updateSize buffer =>
    exact updateAccumulate_live sized arithmetic apart env updateDtype keys updateSize buffer
      before result

end Run

section Main

variable [LinearOrder C] [Zero C] [Add C] [Mul C] {config : GPUTableConfig} {cfg : CacheConfig w C}

omit [Add C] [Mul C] in
theorem init_live (config : GPUTableConfig) (cfg : CacheConfig w C) (memory : Memory)
    (live : Set (BitVec w)) : Live config cfg live (init config cfg memory) := by
  unfold init
  split
  · rename_i onGpu
    exact ⟨onGpu, fun _ => le_refl _, covered_empty cfg live⟩
  · rename_i onHost
    exact ⟨Bool.eq_false_iff.mpr onHost, rfl, covered_empty cfg live⟩

omit [LinearOrder C] [Zero C] [Add C] [Mul C] in
theorem create_fields {decayRate : C} (created : create config decayRate = some cfg) :
    cfg.sentinelKey = BitVec.ofInt w config.invalidKey ∧ cfg.decayRate = decayRate := by
  unfold create at created
  split at created
  · exact absurd created (by simp)
  · dsimp only at created
    split at created
    · exact absurd created (by simp)
    · rw [← some.inj created]
      exact ⟨rfl, rfl⟩

omit [LinearOrder C] [Add C] [Mul C] in
theorem find_init_of_rebuilt (sized : Sized cfg 0) (memory : Memory) (key : BitVec w)
    (rebuilt : constructKey cfg.sentinelKey (hashSetIdx key cfg.numSets) cfg.numSets = key) :
    find cfg key (init config cfg memory) ≠ none := by
  have tags : (init config cfg memory).dTags = fun _ => cfg.sentinelKey := by
    unfold init
    split <;> rfl
  intro missed
  simp only [find, lookup, queryAddress, map_eq_none_iff, sized.wayOfMask_eq, findWay,
    searchWays, tags,
    List.find?_eq_none, mem_range, beq_iff_eq] at missed
  exact missed 0 (by decide) rebuilt

/-- For a table that its constructor accepts: in every run of completed operations the keys that are
not live are missed, invalid key apart, exactly when the empty marker rebuilds no other key. -/
theorem find_misses_dead_keys_iff {decayRate : C} (created : create config decayRate = some cfg)
    (sized : Sized cfg 0)
    (arithmetic : RowArithmetic) (laws : SetWork.CounterLaws C) (decay : 0 ≤ decayRate)
    {share : Nat → Nat → C}
    (shares : ∀ count total, 0 ≤ share count total) :
    (∀ memory requests final,
      Run (StepWithin config cfg arithmetic share) ⟨init config cfg memory, ∅⟩ requests final →
      ∀ key : BitVec w, key.toInt ≠ config.invalidKey → key ∉ final.live →
        find cfg key final.state = none) ↔
    SentinelApart config cfg := by
  rcases create_fields created with ⟨marker, rate⟩
  constructor
  · intro misses
    by_contra mixed
    rcases exists_rebuilt sized marker mixed with ⟨key, valid, rebuilt⟩
    exact find_init_of_rebuilt sized (fun _ => 0) key rebuilt
      (misses (fun _ => 0) [] _ (.done _) key valid (Set.notMem_empty key))
  · intro apart memory requests final run key valid dead
    have live := run.invariant (fun tracked => Live config cfg tracked.live tracked.state)
      (fun first request second taken before =>
        step_live sized arithmetic apart laws (rate ▸ decay) shares first second request
          taken before)
      (init_live config cfg memory ∅)
    exact live.covered.lookup_none sized apart final.state.cache key valid dead

def smallConfig (cacheSize : Nat) (invalidKey : Int) : GPUTableConfig where
  cacheSize := cacheSize
  rowSizeInBytes := 2
  maxModifySize := 4
  valueDtype := .other
  privateStream := false
  modifyOnGpu := true
  invalidKey := invalidKey

def smallCache (numSets : Nat) (invalidKey : Int) : CacheConfig 64 Nat :=
  ⟨numSets, 1, 2, 1, BitVec.ofInt 64 invalidKey⟩

/-- A table of three sets with `invalid_key` -1 misses all keys that are not live: nothing is a
multiple of three there, since `2 ^ 64 - 3` is none. -/
theorem find_misses_dead_keys_three_sets :
    create (smallConfig 336 (-1)) 1 = some (smallCache 3 (-1)) ∧
    ∀ memory requests final,
      Run (StepWithin (smallConfig 336 (-1)) (smallCache 3 (-1)) addBytes fun _ _ => 0)
        ⟨init (smallConfig 336 (-1)) (smallCache 3 (-1)) memory, ∅⟩ requests final →
      ∀ key : BitVec 64, key.toInt ≠ -1 → key ∉ final.live →
        find (smallCache 3 (-1)) key final.state = none := by
  have created : create (smallConfig 336 (-1)) 1 = some (smallCache 3 (-1)) := by decide
  have sized : Sized (smallCache 3 (-1)) 0 :=
    ⟨by decide, by decide, by decide, by decide, by decide⟩
  exact ⟨created, (find_misses_dead_keys_iff created sized addBytes
    ⟨fun _ _ _ _ => Nat.zero_le _, fun _ _ _ _ => Nat.zero_le _⟩ (Nat.zero_le _) fun _ _ =>
      Nat.zero_le _).mpr
    (by decide)⟩

/-- Two sets: with the default `invalid_key` -1 a table nothing was inserted into hits on key -2,
with `invalid_key` 0 it hits on key 1. -/
theorem empty_table_hits :
    create (smallConfig 224 (-1)) 1 = some (smallCache 2 (-1)) ∧
      find (smallCache 2 (-1)) (-2) (init (smallConfig 224 (-1)) (smallCache 2 (-1)) fun _ => 0) =
        some [0, 0] ∧
      create (smallConfig 224 0) 1 = some (smallCache 2 0) ∧
      find (smallCache 2 0) 1 (init (smallConfig 224 0) (smallCache 2 0) fun _ => 0) =
        some [0, 0] := by
  decide

end Main

end GpuTable

end EmbedCache
