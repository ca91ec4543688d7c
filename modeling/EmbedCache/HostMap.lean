import EmbedCache.HostLists
import EmbedCache.Residency

/-! `CacheSAHostModify` as a partial map.

A run of successful calls on one table is followed together with a record of the
row each key was last given: by the `insert` that placed it, or by the last `update`
that reached it. The record is what a lookup returns for every resident key. -/

namespace EmbedCache.CacheSAHostModify

open Lib List Option

variable {w : Nat} {C : Type*}

inductive HostCall (w : Nat) (C : Type*)
  | insert (maxUpdateSz : Nat) (items : List (InsertItem w C))
  | update (maxUpdateSz : Nat) (keys : List (BitVec w)) (buffer : RowBuffer)
  | invalidate (maxUpdateSz : Nat) (keys : List (BitVec w))
  | clearCache

def HostCall.keys : HostCall w C → List (BitVec w)
  | .insert _ items => items.map InsertItem.key
  | .update _ keys _ => keys
  | .invalidate _ keys => keys
  | .clearCache => []

structure HostCall.Valid (call : HostCall w C) : Prop where
  nodup : call.keys.Nodup
  nonnegative : ∀ key ∈ call.keys, NonNegative key

structure HostRequest (w : Nat) (C : Type*) where
  call : HostCall w C
  order : MapOrder w
  outcome : Outcome

section Perform

variable [LT C] [DecidableLT C] [Add C] [Mul C] [Zero C]

def perform (cfg : CacheConfig w C) (arithmetic : RowArithmetic) (table : Nat)
    (request : HostRequest w C)
    (state : HostState w C) : Option (ECError × HostState w C) :=
  match request.call with
  | .insert maxUpdateSz items =>
    some (insert cfg arithmetic request.order request.outcome table maxUpdateSz items state)
  | .update maxUpdateSz keys buffer =>
    some (update cfg arithmetic request.outcome table maxUpdateSz keys buffer state)
  | .invalidate maxUpdateSz keys =>
    invalidate cfg arithmetic request.outcome table maxUpdateSz keys state
  | .clearCache => some (clearCache cfg request.outcome state)

def insertedRow (cfg : CacheConfig w C) (items : List (InsertItem w C)) (key : BitVec w) :
    Option Row :=
  (items.find? fun item => item.key == key).map fun item =>
    readRange item.data 0 cfg.embedWidthInBytes

attribute [local instance] lawful_keys in
/-- The rows the keys have been given once a call has gone from `before` to `after`.

`insert` gives a row to a key that now sits in a way where it was not before;
`update` gives a row to the first `max_update_sz` resident keys of its list. -/
def record (cfg : CacheConfig w C) (table : Nat) (call : HostCall w C) (before after : Tags w)
    (given : BitVec w → Option Row) : BitVec w → Option Row :=
  match call with
  | .insert _ items => fun key =>
    if findWay cfg table after key ≠ none ∧
      findWay cfg table after key ≠ findWay cfg table before key
    then insertedRow cfg items key else given key
  | .update maxUpdateSz keys buffer => fun key =>
    if key ∈ (keys.filter (isResident cfg table before)).take maxUpdateSz
    then some (readRange (buffer.row (keys.idxOf key)) 0 cfg.embedWidthInBytes) else given key
  | .invalidate _ keys => fun key => if key ∈ keys then none else given key
  | .clearCache => fun _ => none

structure Tracked (w : Nat) (C : Type*) where
  state : HostState w C
  given : BitVec w → Option Row

def trackedStep (cfg : CacheConfig w C) (arithmetic : RowArithmetic) (table : Nat)
    (tracked : Tracked w C)
    (request : HostRequest w C) : Option (Tracked w C) :=
  match perform cfg arithmetic table request tracked.state with
  | some (.success, after) =>
    some ⟨after, record cfg table request.call tracked.state.hTags after.hTags tracked.given⟩
  | _ => none

def trackedRun (cfg : CacheConfig w C) (arithmetic : RowArithmetic) (table : Nat)
    (tracked : Tracked w C)
    (requests : List (HostRequest w C)) : Option (Tracked w C) :=
  requests.foldlM (trackedStep cfg arithmetic table) tracked

end Perform

structure Invariant (cfg : CacheConfig w C) (table : Nat) (state : HostState w C)
    (given : BitVec w → Option Row) : Prop where
  synced : state.dTags = state.hTags
  placed : WellPlaced cfg table state.hTags
  distinct : (view cfg table state.hTags state.cache).Distinct
  backed : (view cfg table state.hTags state.cache).Backed given

section Insert

variable [LT C] [DecidableLT C] [Add C]

omit [LT C] [DecidableLT C] [Add C] in
theorem insertedRow_of_mem (cfg : CacheConfig w C) (items : List (InsertItem w C))
    (nodup : (items.map InsertItem.key).Nodup) (item : InsertItem w C) (member : item ∈ items) :
    insertedRow cfg items item.key = some (readRange item.data 0 cfg.embedWidthInBytes) := by
  have found : items.find? (fun other => other.key == item.key) = some item := by
    induction items with
    | nil => simp at member
    | cons head rest ih =>
      rw [map_cons, nodup_cons] at nodup
      rcases mem_cons.mp member with rfl | later
      · simp
      · have apart : head.key ≠ item.key := fun same =>
          nodup.1 (same ▸ mem_map.mpr ⟨item, later, rfl⟩)
        rw [List.find?_cons_of_neg (by simpa using apart)]
        exact ih nodup.2 later
  rw [insertedRow, found, map_some]

variable {cfg : CacheConfig w C} {table : Nat} (sized : Sized cfg table)
  (marker : cfg.sentinelKey = -1)

include sized marker

theorem insertScan_placed (maxUpdateSz : Nat) (memory : Memory) (items : List (InsertItem w C))
    (scan : InsertScan w C) (nonnegative : ∀ item ∈ items, NonNegative item.key)
    (placed : WellPlaced cfg table scan.tags)
    (distinct : (view cfg table scan.tags memory).Distinct) :
    WellPlaced cfg table (insertScan cfg table maxUpdateSz items scan).tags ∧
      (view cfg table (insertScan cfg table maxUpdateSz items scan).tags memory).Distinct := by
  induction items generalizing scan with
  | nil => exact ⟨placed, distinct⟩
  | cons item rest ih =>
    unfold insertScan
    split
    · have later := fun other member => nonnegative other (mem_cons_of_mem _ member)
      rcases insertKey_cases sized scan item with ⟨tags, _⟩ | ⟨way, missing, _, tags, _⟩
      · apply ih _ later <;> rw [tags]
        · exact placed
        · exact distinct
      · have step := wellPlaced_update sized marker scan.tags memory placed distinct item.key
          (nonnegative item mem_cons_self) missing way
        apply ih _ later <;> rw [tags]
        · exact step.1
        · exact step.2
    · exact ⟨placed, distinct⟩

variable {items : List (InsertItem w C)}

omit [LT C] [DecidableLT C] [Add C] in
theorem record_inserted {before after : Tags w} {memory : Memory}
    (nodup : (items.map InsertItem.key).Nodup)
    (placed : WellPlaced cfg table after) (distinct : (view cfg table after memory).Distinct)
    (maxUpdateSz : Nat)
    (given : BitVec w → Option Row) (slot : CacheSlot cfg) (item : InsertItem w C)
    (present : item ∈ items)
    (nonnegative : NonNegative item.key) (set : hashSetIdx item.key cfg.numSets = slot.1)
    (tag : after (slot.index table) = constructTag item.key cfg.numSets)
    (fresh : constructKey (before (slot.index table)) slot.1 cfg.numSets ≠ item.key) :
    record cfg table (.insert maxUpdateSz items) before after given item.key =
      some (readRange item.data 0 cfg.embedWidthInBytes) := by
  have held := heldKey_constructTag sized marker after slot item.key nonnegative set tag
  have found := findWay_of_held sized marker after placed memory distinct item.key slot held
  have moved : findWay cfg table before item.key ≠ some slot.2.val := by
    intro earlier
    obtain ⟨bound, old⟩ := held_of_findWay sized marker before item.key nonnegative _ earlier
    have spot : CacheSlot.ofKey sized item.key ⟨slot.2, bound⟩ = slot := Prod.ext (Fin.ext set) rfl
    have matched :=
      (construct_match_iff sized marker before item.key nonnegative ⟨slot.2, bound⟩).mpr old
    rw [spot, set] at matched
    exact fresh matched
  simp only [record]
  rw [if_pos ⟨by simp [found], by rw [found]; exact moved.symm⟩,
    insertedRow_of_mem cfg items nodup item present]

omit [LT C] [DecidableLT C] [Add C] in
theorem InsertListed.backed {before : Tags w} {scan : InsertScan w C}
    (listed : InsertListed cfg table items before scan) (order : MapOrder w)
    (nodup : (items.map InsertItem.key).Nodup)
    (nonnegative : ∀ item ∈ items, NonNegative item.key) {memory : Memory}
    (placed : WellPlaced cfg table before)
    (distinct : (view cfg table before memory).Distinct)
    (placedAfter : WellPlaced cfg table scan.tags)
    (distinctAfter : (view cfg table scan.tags memory).Distinct) (maxUpdateSz : Nat)
    (given : BitVec w → Option Row)
    (backed : (view cfg table before memory).Backed given) :
    (view cfg table scan.tags
      (applyWrites memory (((order.iterate scan.insertMap).map Prod.snd).map fun entry =>
      ⟨entry.dst, cfg.embedWidthInBytes, entry.src⟩))).Backed
      (record cfg table (.insert maxUpdateSz items) before scan.tags given) := by
  refine KeyedSlots.Backed.install backed distinctAfter ?_ ?_
  · rintro key ⟨slot, held⟩ stays
    simp only [record]
    rw [if_neg]
    rintro ⟨found, moved⟩
    obtain ⟨way, here⟩ := Option.ne_none_iff_exists'.mp found
    obtain ⟨bound, now⟩ :=
      held_of_findWay sized marker scan.tags key (placedAfter.of_held sized held).1 way here
    refine stays ⟨_, now, fun earlier => moved ?_⟩
    rw [here, findWay_of_held sized marker before placed memory distinct key _ earlier]
    rfl
  · intro slot
    by_cases named : ∃ entry ∈ (order.iterate scan.insertMap).map Prod.snd,
        entry.slot (tableBase cfg table) = slot.index table
    · obtain ⟨entry, member, place⟩ := named
      have row := rowAt_copied (tableBase cfg table) cfg.embedWidthInBytes _ memory
        (listed.entries_dst sized order) entry member fun other inside same => by
          rw [entry_eq_of_slot (listed.entries_nodup sized order) inside member same]
      rw [place] at row
      obtain ⟨target, item, present, rfl, set, tag, fresh⟩ := listed.mem_entries order entry member
      rw [(insertEntry_names table item target).slot_eq sized] at place
      have same := CacheSlot.index_injective place
      subst same
      refine .inr (.inr ⟨item.key, ?_, ?_⟩)
      · exact heldKey_constructTag sized marker scan.tags target item.key
          (nonnegative item present) set tag
      · rw [record_inserted sized marker nodup placedAfter distinctAfter maxUpdateSz given target
          item present
          (nonnegative item present) set tag fresh]
        exact congrArg some row.symm
    · have absent : ∀ entry ∈ (order.iterate scan.insertMap).map Prod.snd,
          entry.slot (tableBase cfg table) ≠ slot.index table :=
        fun entry member same => named ⟨entry, member, same⟩
      refine .inl ⟨heldKey_congr (listed.entries_frame sized order _ absent), ?_⟩
      exact rowAt_not_copied (tableBase cfg table) cfg.embedWidthInBytes _ memory
        (listed.entries_dst sized order) _ absent

variable [Mul C]

theorem insert_invariant {arithmetic : RowArithmetic} {order : MapOrder w} {outcome : Outcome}
    {maxUpdateSz : Nat}
    {items : List (InsertItem w C)} (nodup : (items.map InsertItem.key).Nodup)
    (nonnegative : ∀ item ∈ items, NonNegative item.key) {state after : HostState w C}
    {given : BitVec w → Option Row}
    (invariant : Invariant cfg table state given)
    (result : insert cfg arithmetic order outcome table maxUpdateSz items state =
      (.success, after)) :
    Invariant cfg table after
      (record cfg table (.insert maxUpdateSz items) state.hTags after.hTags given) := by
  have listed :=
    insertScan_listed sized maxUpdateSz items state.hTags (decayCounters cfg table state.hCounters)
  obtain ⟨placed, distinct⟩ := insertScan_placed sized marker maxUpdateSz state.cache items
    ⟨state.hTags, decayCounters cfg table state.hCounters, []⟩ nonnegative invariant.placed
      invariant.distinct
  rw [modify_copied result sized (.inl rfl)]
  refine ⟨?_, placed, distinct, ?_⟩
  · simp only [invariant.synced]
    exact listed.republished sized order
  · exact listed.backed sized marker order nodup nonnegative invariant.placed invariant.distinct
      placed distinct
      maxUpdateSz given invariant.backed

end Insert

section Update

variable {cfg : CacheConfig w C} {table : Nat} (sized : Sized cfg table)
  (marker : cfg.sentinelKey = -1)

include sized marker

theorem update_invariant {arithmetic : RowArithmetic} {outcome : Outcome} {maxUpdateSz : Nat}
    {keys : List (BitVec w)}
    {buffer : RowBuffer} (nodup : keys.Nodup) (nonnegative : ∀ key ∈ keys, NonNegative key)
    {state after : HostState w C}
    {given : BitVec w → Option Row} (invariant : Invariant cfg table state given)
    (result : update cfg arithmetic outcome table maxUpdateSz keys buffer state =
      (.success, after)) :
    Invariant cfg table after
      (record cfg table (.update maxUpdateSz keys buffer) state.hTags after.hTags given) := by
  rw [modify_copied result sized (.inr rfl), searchTagStorageForUpdate_eq sized]
  refine ⟨?_, invariant.placed, invariant.distinct, ?_⟩
  · simp only [invariant.synced]
    exact update_republished sized marker maxUpdateSz state.hTags keys buffer nodup nonnegative _
      (fun _ => Iff.rfl) _ fun i absent => invalidateTagKernel_absent _ _ _ _ i absent
  · intro slot key held
    have rows := update_rows sized marker maxUpdateSz state.hTags keys buffer nodup nonnegative _
      (fun _ => Iff.rfl)
      state.cache invariant.distinct slot key held
    simp only [record]
    split_ifs with reached
    · exact congrArg some (rows.1 reached).symm
    · exact (invariant.backed slot key held).trans (congrArg some (rows.2 reached).symm)

end Update

section Clear

variable {cfg : CacheConfig w C} {table : Nat} (sized : Sized cfg table)

include sized

theorem invalidate_invariant {arithmetic : RowArithmetic} {outcome : Outcome} {maxUpdateSz : Nat}
    {keys : List (BitVec w)} {state after : HostState w C} {given : BitVec w → Option Row}
    (invariant : Invariant cfg table state given)
    (success : invalidate cfg arithmetic outcome table maxUpdateSz keys state =
      some (.success, after)) :
    Invariant cfg table after
      (record cfg table (.invalidate maxUpdateSz keys) state.hTags after.hTags given) := by
  have listed := invalidateScan_listed sized keys state.hTags
  unfold invalidate at success
  dsimp only at success
  split at success
  · exact absurd success (by simp)
  · rw [modify_invalidated (some.inj success) rfl]
    have shrinks : ∀ slot : CacheSlot cfg, _ := fun slot =>
      listed.cleared_or_same (slot.index table)
    have placed := invariant.placed.shrink shrinks
    refine ⟨?_, placed, ?_, ?_⟩
    · simp only [invariant.synced]
      exact listed.republished
    · exact KeyedSlots.Distinct.shrink invariant.distinct fun slot key held =>
        heldKey_of_cleared shrinks held
    · intro slot key held
      have fresh : key ∉ keys := by
        intro member
        have spot := placed.slot_eq sized held
        have made :=
          listed.gone (key, slot.2) ((mem_probes keys key slot.2).mpr ⟨member, slot.2.isLt⟩)
        have index : probeSlot cfg table (key, slot.2.val) = slot.index table := by
          rw [spot]
          rfl
        have set := (placed.of_held sized held).2.1
        simp only [index, set] at made
        simp only [view, heldKey] at held
        rcases made with empty | differs
        · simp only [empty, if_true] at held
          exact absurd held (by simp)
        · split at held
          · exact absurd held (by simp)
          · exact differs (some.inj held)
      simp only [record, if_neg fresh]
      exact invariant.backed slot key (heldKey_of_cleared shrinks held)

theorem clearCache_invariant [Zero C] {outcome : Outcome} {state after : HostState w C}
    {given : BitVec w → Option Row}
    (invariant : Invariant cfg table state given)
    (result : clearCache cfg outcome state = (.success, after)) :
    Invariant cfg table after (record cfg table .clearCache state.hTags after.hTags given) := by
  have cleared := applySteps_of_ok _ _ _ result
  have empty : ∀ slot : CacheSlot cfg, heldKey cfg table after.hTags slot = none := by
    intro slot
    rw [cleared]
    simp only [applySteps_cons, applySteps_nil, heldKey,
      if_pos (sized.index_lt_total slot), if_true]
  have nothing : ∀ slot key, (view cfg table after.hTags after.cache).held slot ≠ some key := by
    intro slot key held
    rw [show (view cfg table _ _).held slot = none from empty slot] at held
    exact absurd held (by simp)
  refine ⟨?_, ?_, ?_, ?_⟩
  · rw [cleared]
    funext i
    simp only [applySteps_cons, applySteps_nil, invariant.synced]
    split_ifs <;> rfl
  · intro slot nonempty
    have none := empty slot
    rw [heldKey, if_neg nonempty] at none
    exact absurd none (by simp)
  · intro first second key left _
    exact absurd left (nothing first key)
  · intro slot key held
    exact absurd held (nothing slot key)

end Clear

section Run

variable [LT C] [DecidableLT C] [Add C] [Mul C] [Zero C]

omit [LT C] [DecidableLT C] [Add C] [Mul C] in
theorem init_invariant (cfg : CacheConfig w C) (table : Nat) (memory : Memory) :
    Invariant cfg table (init cfg memory) fun _ => none := by
  have empty : ∀ slot, heldKey cfg table (init cfg memory).hTags slot = none :=
    fun slot => if_pos rfl
  refine ⟨rfl, fun slot nonempty => absurd rfl nonempty, ?_, ?_⟩
  · intro first second key left _
    exact absurd ((empty first).symm.trans left) (by simp)
  · intro slot key held
    exact absurd ((empty slot).symm.trans held) (by simp)

variable {cfg : CacheConfig w C} {table : Nat} (sized : Sized cfg table)
  (marker : cfg.sentinelKey = -1)
  (arithmetic : RowArithmetic)

include sized marker

theorem step_invariant (request : HostRequest w C) (valid : request.call.Valid)
    (tracked next : Tracked w C)
    (invariant : Invariant cfg table tracked.state tracked.given)
    (step : trackedStep cfg arithmetic table tracked request = some next) :
    Invariant cfg table next.state next.given := by
  unfold trackedStep at step
  split at step
  · rename_i after result
    have final := some.inj step
    subst final
    obtain ⟨nodup, nonnegative⟩ := valid
    obtain ⟨call, order, outcome⟩ := request
    cases call with
    | insert maxUpdateSz items =>
      exact insert_invariant sized marker nodup
        (fun item member => nonnegative _ (mem_map_of_mem member)) invariant
        (some.inj result)
    | update => exact update_invariant sized marker nodup nonnegative invariant (some.inj result)
    | invalidate => exact invalidate_invariant sized invariant result
    | clearCache => exact clearCache_invariant sized invariant (some.inj result)
  · exact absurd step (by simp)

theorem run_invariant (requests : List (HostRequest w C))
    (valid : ∀ request ∈ requests, request.call.Valid)
    (tracked final : Tracked w C) (invariant : Invariant cfg table tracked.state tracked.given)
    (run : trackedRun cfg arithmetic table tracked requests = some final) :
    Invariant cfg table final.state final.given := by
  induction requests generalizing tracked with
  | nil =>
    have same := some.inj run
    exact same ▸ invariant
  | cons request rest ih =>
    rw [trackedRun, foldlM_cons] at run
    obtain ⟨next, step, later⟩ := bind_eq_some_iff.mp run
    exact ih (fun other member => valid other (mem_cons_of_mem _ member)) next
      (step_invariant sized marker arithmetic request (valid request mem_cons_self) tracked next
        invariant step)
      later

end Run

section Keys

def allSlots (cfg : CacheConfig w C) : List (CacheSlot cfg) :=
  (List.finRange cfg.numSets).product (List.finRange numWays)

theorem mem_allSlots {cfg : CacheConfig w C} (slot : CacheSlot cfg) : slot ∈ allSlots cfg :=
  mem_product.mpr ⟨mem_finRange _, mem_finRange _⟩

variable (cfg : CacheConfig w C)

theorem allSlots_nodup : (allSlots cfg).Nodup :=
  (nodup_finRange _).product (nodup_finRange _)

variable (state : HostState w C)

theorem getKeysStoredInCache_eq :
    getKeysStoredInCache cfg state = (allSlots cfg).filterMap (heldKey cfg 0 state.hTags) := by
  have ranges : ∀ n, List.range n = (List.finRange n).map Fin.val := fun n =>
    (map_coe_finRange_eq_range).symm
  rw [getKeysStoredInCache, allSlots, List.product, filterMap_flatMap, ranges cfg.numSets,
    flatMap_map]
  simp only [ranges numWays, filterMap_map]
  congr 1
  funext set
  congr 1
  funext way
  simp only [Function.comp_apply, heldKey, CacheSlot.index, tableBase, Nat.zero_mul, Nat.zero_add]

theorem getKeysStoredInCache_nodup (distinct : (view cfg 0 state.hTags state.cache).Distinct) :
    (getKeysStoredInCache cfg state).Nodup := by
  rw [getKeysStoredInCache_eq]
  apply List.Nodup.filterMap _ (allSlots_nodup cfg)
  intro first second key left right
  exact distinct first second key left right

theorem mem_getKeysStoredInCache (key : BitVec w) :
    key ∈ getKeysStoredInCache cfg state ↔ (view cfg 0 state.hTags state.cache).Resident key := by
  rw [getKeysStoredInCache_eq, mem_filterMap]
  constructor
  · rintro ⟨slot, _, held⟩
    exact ⟨slot, held⟩
  · rintro ⟨slot, held⟩
    exact ⟨slot, mem_allSlots slot, held⟩

end Keys

section Main

variable [LT C] [DecidableLT C] [Add C] [Mul C] [Zero C]

/-- After any run of successful calls on one table the cache is a partial map: no key is held
twice, tags sit in the set of their key, device and host tags agree, the listed keys are the
resident ones, and a lookup returns the recorded row of a resident key and misses otherwise. -/
theorem hostModify_partialMap (cfg : CacheConfig w C) (table : Nat) (arithmetic : RowArithmetic)
    (memory : Memory)
    (sized : Sized cfg table) (marker : cfg.sentinelKey = -1) (requests : List (HostRequest w C))
    (valid : ∀ request ∈ requests, request.call.Valid) (final : Tracked w C)
    (run : trackedRun cfg arithmetic table ⟨init cfg memory, fun _ => none⟩ requests = some final) :
    (∀ first second key, heldKey cfg table final.state.hTags first = some key →
      heldKey cfg table final.state.hTags second = some key → first = second) ∧
    (∀ slot key, heldKey cfg table final.state.hTags slot = some key →
      hashSetIdx key cfg.numSets = slot.1) ∧
    final.state.dTags = final.state.hTags ∧
    (table = 0 → (getKeysStoredInCache cfg final.state).Nodup ∧
      ∀ key, key ∈ getKeysStoredInCache cfg final.state ↔
        ∃ slot, heldKey cfg table final.state.hTags slot = some key) ∧
    ∀ key, NonNegative key →
      (∀ slot, heldKey cfg table final.state.hTags slot = some key →
        ∃ row, final.given key = some row ∧
          lookup cfg table final.state.dTags final.state.cache key = some row) ∧
      ((∀ slot, heldKey cfg table final.state.hTags slot ≠ some key) →
        lookup cfg table final.state.dTags final.state.cache key = none) := by
  obtain ⟨synced, placed, distinct, backed⟩ :=
    run_invariant sized marker arithmetic requests valid _ final
      (init_invariant cfg table memory) run
  refine ⟨distinct, fun slot key held => (placed.of_held sized held).2.1, synced, ?_, ?_⟩
  · rintro rfl
    exact ⟨getKeysStoredInCache_nodup cfg final.state distinct,
      mem_getKeysStoredInCache cfg final.state⟩
  · intro key nonnegative
    rw [synced, lookup_eq_toMap sized marker _ placed _ distinct key nonnegative]
    constructor
    · intro slot held
      exact ⟨_, backed slot key held, KeyedSlots.toMap_of_held _ distinct slot key held⟩
    · intro absent
      exact KeyedSlots.toMap_of_not_resident _ key fun ⟨slot, held⟩ => absent slot held

end Main

section Concrete

def tinyRequest (call : HostCall 64 Nat) : HostRequest 64 Nat := ⟨call, inOrder, noFailure⟩

def tinyItem (key : BitVec 64) (byte : UInt8) : InsertItem 64 Nat := ⟨key, 1, fun _ => byte⟩

def twoKeysThenUpdate (maxUpdateSz : Nat) : List (HostRequest 64 Nat) :=
  [tinyRequest (.insert 4 [tinyItem 0 10]),
   tinyRequest (.insert 4 [tinyItem 1 11]),
   tinyRequest (.update maxUpdateSz [0, 1] ⟨fun i => if i = 0 then 20 else 21, 1⟩)]

def tinyRun (requests : List (HostRequest 64 Nat)) : Option (Tracked 64 Nat) :=
  trackedRun oneSet addBytes 0 ⟨init oneSet fun _ => 0, fun _ => none⟩ requests

def tinyLookup (requests : List (HostRequest 64 Nat)) (key : BitVec 64) : Option (Option Row) :=
  (tinyRun requests).map fun final => lookup oneSet 0 final.state.dTags final.state.cache key

theorem twoKeysThenUpdate_valid (maxUpdateSz : Nat) :
    ∀ request ∈ twoKeysThenUpdate maxUpdateSz, request.call.Valid := by
  intro request member
  simp only [twoKeysThenUpdate, mem_cons, not_mem_nil, or_false] at member
  rcases member with rfl | rfl | rfl <;>
    exact ⟨by simp [tinyRequest, HostCall.keys],
      by simp [tinyRequest, HostCall.keys, tinyItem, NonNegative]⟩

/-- The hypotheses of the theorem at a run of two inserts and an update that reaches both keys. -/
theorem hostModify_partialMap_two_keys :
    ∃ final, tinyRun (twoKeysThenUpdate 2) = some final ∧ final.state.dTags = final.state.hTags ∧
      (getKeysStoredInCache oneSet final.state).Nodup := by
  have defined : (tinyRun (twoKeysThenUpdate 2)).isSome = true := by decide +kernel
  obtain ⟨final, run⟩ := Option.isSome_iff_exists.mp defined
  have result := hostModify_partialMap oneSet 0 _ _ oneSet_sized rfl (twoKeysThenUpdate 2)
    (twoKeysThenUpdate_valid 2) final run
  exact ⟨final, run, result.2.2.1, (result.2.2.2.1 rfl).1⟩

/-- With room for one list entry the same successful `update` leaves the second key at the row it
was inserted with, although the call carried the row `[21]` for it. -/
theorem update_past_maxUpdateSz_keeps_old_row :
    tinyLookup (twoKeysThenUpdate 1) 1 = some (some [11]) ∧
      tinyLookup (twoKeysThenUpdate 2) 1 = some (some [21]) := by
  decide +kernel

end Concrete

end EmbedCache.CacheSAHostModify
