import EmbedCache.DeviceLists
import EmbedCache.Lib.Runs

/-! `CacheSADeviceModify` keeps every key in at most one way, and an updated row stays readable.

Runs are followed together with the rows known from `update`: the row an update gave
to a key, until the key is modified again. -/

namespace EmbedCache.CacheSADeviceModify

open Lib List

variable {w : Nat} {C : Type*}

section Success

variable {outcome : Outcome} {prepare sync commit : List (DeviceStep w C)}
  {state after : DeviceState w C}

theorem runModify_success
    (result : runModify outcome prepare sync commit state = (.success, after)) :
    after = applySteps commit
      (applySteps (performed .success outcome sync) (applySteps prepare state)) := by
  unfold runModify at result
  dsimp only at result
  split at result
  · rename_i prepared
    have committed := runSteps_of_ok _ _ _ _ (congrArg Prod.fst result : _ = ECError.success)
    rw [result, runSteps_state, runSteps_of_ok _ _ _ _ prepared] at committed
    exact committed
  · rename_i failed
    exact absurd (congrArg Prod.fst result) failed

theorem sync_cases (cfg : CacheConfig w C) (table : Nat) (outcome : Outcome) (numKeys : Nat)
    (entries : List (ModifyEntry w)) (state : DeviceState w C) :
    applySteps (performed .success outcome (invalidateTagsAndSync cfg table numKeys entries))
      state = state ∨
    applySteps (performed .success outcome (invalidateTagsAndSync cfg table numKeys entries))
      state =
      { state with
        dTags :=
  callTagInvalidateKernel entries numKeys (tableBase cfg table) cfg.sentinelKey state.dTags } := by
  by_cases launched : outcome .invalidateTags = .success
  · right
    by_cases drained : outcome .streamSynchronize = .success <;>
      by_cases marked : outcome .eventRecord = .success <;>
      by_cases waited : outcome .eventWaitStream = .success <;>
      simp [invalidateTagsAndSync, performed, GuardedStep.result, launched, drained, marked, waited]
  · left
    simp [invalidateTagsAndSync, performed, GuardedStep.result, launched]

/-- A successful copying operation: rows copied, tags published, and nothing else touched, whether
or not the helper got as far as invalidating the tags. -/
theorem runModify_committed {cfg : CacheConfig w C} {table numKeys : Nat} (sized : Sized cfg table)
    {entries : List (ModifyEntry w)} (short : entries.length ≤ numKeys)
    (keepsTags : (applySteps prepare state).dTags = state.dTags)
    (keepsRows : (applySteps prepare state).cache = state.cache)
    (result : runModify outcome prepare (invalidateTagsAndSync cfg table numKeys entries)
      [memUpdateStep cfg numKeys entries, tagUpdateStep cfg table numKeys entries] state =
        (.success, after)) :
    ∃ tags : Tags w,
      (∀ i, (∀ entry ∈ entries, entry.slot (tableBase cfg table) ≠ i) → tags i = state.dTags i) ∧
      after =
      { dTags := tagUpdateKernel entries (tableBase cfg table) tags
        dCounters := (applySteps prepare state).dCounters
        cache := applyWrites state.cache
          (entries.map fun entry => ⟨entry.dst, cfg.embedWidthInBytes, entry.src⟩) } := by
  have whole := take_of_length_le (short.trans (le_launched32 numKeys))
  have blocks := take_of_length_le short
  rw [runModify_success result]
  rcases sync_cases cfg table outcome numKeys entries (applySteps prepare state) with same | cleared
  · refine ⟨state.dTags, fun _ _ => rfl, ?_⟩
    rw [same]
    simp only [applySteps_cons, applySteps_nil, memUpdateStep, tagUpdateStep,
      callTagUpdateKernel, whole,
      callMemUpdateKernel_eq, blocks, sized.wrap32_width, keepsTags, keepsRows]
  · refine ⟨invalidateTagKernel entries (tableBase cfg table) cfg.sentinelKey state.dTags, ?_, ?_⟩
    · exact fun i absent => invalidateTagKernel_absent _ _ _ _ i absent
    · rw [cleared]
      simp only [applySteps_cons, applySteps_nil, memUpdateStep, tagUpdateStep,
        callTagUpdateKernel, whole,
        callMemUpdateKernel_eq, blocks, sized.wrap32_width, callTagInvalidateKernel,
          keepsTags, keepsRows]

end Success

/-- The rows known from updates, kept as long as their keys are not modified. -/
abbrev KnownRows (w : Nat) := BitVec w → Option Row

structure Invariant [LE C] [Zero C] (cfg : CacheConfig w C) (table : Nat) (state : DeviceState w C)
    (known : KnownRows w) : Prop where
  counters : ∀ i, 0 ≤ state.dCounters i
  placed : WellPlaced cfg table state.dTags
  distinct : (view cfg table state.dTags state.cache).Distinct
  kept : ∀ slot key row, heldKey cfg table state.dTags slot = some key → known key = some row →
    rowAt state.cache cfg.embedWidthInBytes (slot.index table) = row

inductive DeviceCall (w : Nat) (C : Type*)
  | insert (maxUpdateSz : Nat) (items : List (InsertItem w C))
  | update (maxUpdateSz : Nat) (keys : List (BitVec w)) (buffer : RowBuffer)
  | invalidate (maxUpdateSz : Nat) (keys : List (BitVec w))
  | clearCache

def DeviceCall.keys : DeviceCall w C → List (BitVec w)
  | .insert _ items => items.map InsertItem.key
  | .update _ keys _ => keys
  | .invalidate _ keys => keys
  | .clearCache => []

structure DeviceCall.Valid [LE C] [Zero C] (call : DeviceCall w C) : Prop where
  nodup : call.keys.Nodup
  nonnegative : ∀ key ∈ call.keys, NonNegative key
  priorities : ∀ maxUpdateSz items, call = .insert maxUpdateSz items →
    ∀ item ∈ items, 0 ≤ item.priority

structure DeviceRequest (w : Nat) (C : Type*) where
  call : DeviceCall w C
  order : AtomicOrder w
  outcome : Outcome

attribute [local instance] lawful_keys in
/-- The rows known after a call: those passed to `update`; a key named by another call is
forgotten. -/
def record (cfg : CacheConfig w C) (call : DeviceCall w C) (known : KnownRows w) : KnownRows w :=
  match call with
  | .insert _ items => fun key => if key ∈ items.map InsertItem.key then none else known key
  | .update _ keys buffer => fun key =>
    if key ∈ keys then some (readRange (buffer.row (keys.idxOf key)) 0 cfg.embedWidthInBytes)
    else known key
  | .invalidate _ keys => fun key => if key ∈ keys then none else known key
  | .clearCache => fun _ => none

section Run

variable [LinearOrder C] [Zero C] [Add C] [Mul C]

/-- The condition under which a call stays in the range of the kernels' arithmetic, and an insert
gives no set more than eight keys unless their priorities differ. -/
def DeviceCall.Within (cfg : CacheConfig w C) (table : Nat) (state : DeviceState w C) :
    DeviceCall w C → Prop
  | .insert _ items =>
      ∀ work ∈ groupBySet cfg table items state.dTags (decayedCounters cfg state.dCounters),
        work.Orderly
  | .update _ keys buffer => cfg.numSets * numWays * cfg.embedWidthInBytes ≤ 2 ^ 32 ∧
      0 ≤ buffer.stride ∧ buffer.stride < 2 ^ 32 ∧ ∀ i < keys.length, i * buffer.stride < 2 ^ 32
  | .invalidate _ _ => True
  | .clearCache => True

def perform (cfg : CacheConfig w C) (table : Nat) (request : DeviceRequest w C)
    (state : DeviceState w C) :
    Option (ECError × DeviceState w C) :=
  match request.call with
  | .insert maxUpdateSz items =>
    insert cfg request.order request.outcome table maxUpdateSz items state
  | .update maxUpdateSz keys buffer =>
    update cfg request.order request.outcome table maxUpdateSz keys buffer state
  | .invalidate maxUpdateSz keys =>
    invalidate cfg request.order request.outcome table maxUpdateSz keys state
  | .clearCache => some (clearCache cfg request.outcome state)

structure Tracked (w : Nat) (C : Type*) where
  state : DeviceState w C
  known : KnownRows w

structure StepWithin (cfg : CacheConfig w C) (table : Nat) (tracked : Tracked w C)
    (request : DeviceRequest w C)
    (next : Tracked w C) : Prop where
  valid : request.call.Valid
  within : request.call.Within cfg table tracked.state
  result : perform cfg table request tracked.state = some (.success, next.state)
  known : next.known = record cfg request.call tracked.known

end Run

theorem recorded_all (order : AtomicOrder w) (maxUpdateSz : Nat) (entries : List (ModifyEntry w))
    (room : entries.length ≤ maxUpdateSz) :
      recorded order maxUpdateSz entries = order.iterate entries :=
  take_of_length_le (by rw [(order.perm entries).length_eq]; exact room)

section Insert

variable [LinearOrder C] [Zero C] [Add C] [Mul C] {cfg : CacheConfig w C} {table : Nat}

structure Replaced (cfg : CacheConfig w C) (table : Nat) (items : List (InsertItem w C))
    (plan : List (CacheSlot cfg × Nat)) (before after : DeviceState w C) : Prop where
  placed : ∀ placed ∈ plan, after.dTags (placed.1.index table) =
    constructTag (itemAt items placed.2).key cfg.numSets
  frame : ∀ slot, (∀ placed ∈ plan, placed.1 ≠ slot) →
    after.dTags (slot.index table) = before.dTags (slot.index table) ∧
    rowAt after.cache cfg.embedWidthInBytes (slot.index table) =
      rowAt before.cache cfg.embedWidthInBytes (slot.index table)

omit [LinearOrder C] [Add C] [Mul C] in
theorem replaced_of_list (sized : Sized cfg table) (items : List (InsertItem w C))
    (plan : List (CacheSlot cfg × Nat))
    (slots : (plan.map Prod.fst).Nodup) (list : List (ModifyEntry w))
    (members : ∀ entry, entry ∈ list ↔
      ∃ placed ∈ plan, insertEntry cfg table (itemAt items placed.2) placed.1 = entry)
    (state : DeviceState w C) (tags : Tags w)
    (untouched : ∀ i, (∀ entry ∈ list, entry.slot (tableBase cfg table) ≠ i) →
      tags i = state.dTags i)
    (counters : Nat → C) :
    Replaced cfg table items plan state
      { dTags := tagUpdateKernel list (tableBase cfg table) tags
        dCounters := counters
        cache := applyWrites state.cache
          (list.map fun entry => ⟨entry.dst, cfg.embedWidthInBytes, entry.src⟩) } := by
  have slotOf : ∀ placed : CacheSlot cfg × Nat,
      (insertEntry cfg table (itemAt items placed.2) placed.1).slot (tableBase cfg table) =
        placed.1.index table :=
    fun placed => (insertEntry_names table _ placed.1).slot_eq sized
  have absent : ∀ slot : CacheSlot cfg, (∀ placed ∈ plan, placed.1 ≠ slot) →
      ∀ entry ∈ list, entry.slot (tableBase cfg table) ≠ slot.index table := by
    intro slot free entry member same
    rcases (members entry).mp member with ⟨placed, present, rfl⟩
    rw [slotOf placed] at same
    exact free placed present (CacheSlot.index_injective same)
  constructor
  · intro placed present
    have tag := tagUpdateKernel_present list (tableBase cfg table) tags _
      ((members _).mpr ⟨placed, present, rfl⟩) (by
      intro other inside same
      rcases (members other).mp inside with ⟨second, otherPresent, rfl⟩
      rw [slotOf, slotOf] at same
      rw [inj_on_of_nodup_map slots otherPresent present (CacheSlot.index_injective same)])
    rw [slotOf placed] at tag
    exact tag
  · intro slot free
    constructor
    · have same :=
        tagUpdateKernel_absent list (tableBase cfg table) tags (slot.index table) (absent slot free)
      exact same.trans (untouched _ (absent slot free))
    · apply rowAt_not_copied (tableBase cfg table)
      · intro entry member
        rcases (members entry).mp member with ⟨placed, present, rfl⟩
        rw [slotOf placed]
        rfl
      · exact absent slot free

variable (sized : Sized cfg table) (laws : SetWork.CounterLaws C) (decay : 0 ≤ cfg.decayRate)
  (order : AtomicOrder w) (outcome : Outcome) (maxUpdateSz : Nat) (items : List (InsertItem w C))
  (priorities : ∀ item ∈ items, 0 ≤ item.priority) (state after : DeviceState w C)

include sized laws decay priorities

theorem insert_replaced (nonneg : ∀ i, 0 ≤ state.dCounters i)
    (within : (DeviceCall.insert maxUpdateSz items).Within cfg table state)
    (result : insert cfg order outcome table maxUpdateSz items state = some (.success, after)) :
    Replaced cfg table items (replacements items state.dTags state.dCounters sized) state after ∧
      ∀ i, 0 ≤ after.dCounters i := by
  unfold insert at result
  split at result
  · exact absurd result (by simp)
  · rename_i fits
    have length := replacements_length sized items state.dTags state.dCounters laws decay nonneg
      priorities fun work member => (within work member).exactLocations
    have counters :=
      replaceCounters_nonneg sized items state.dTags state.dCounters laws decay nonneg priorities
    have list := replaceEntries_eq_replacements sized items state.dTags state.dCounters
    dsimp only at result
    generalize computeSetReplaceData cfg table items state.dTags state.dCounters =
      data at result counters list
    have count : data.1.length ≤ items.length := by
      rw [list, length_map]
      exact length
    rw [recorded_all order maxUpdateSz data.1 (by omega)] at result
    rcases runModify_committed sized (by rw [(order.perm _).length_eq]; exact count) rfl rfl
      (Option.some.inj result)
      with ⟨tags, untouched, rfl⟩
    refine ⟨replaced_of_list sized items _
      (replacements_slots_nodup sized items state.dTags state.dCounters)
      (order.iterate data.1) ?_ state tags untouched _, counters⟩
    intro entry
    rw [(order.perm data.1).mem_iff, list, mem_map]

/-- `insert` keeps the invariant; the keys of the call are forgotten. -/
theorem insert_invariant (marker : cfg.sentinelKey = -1) (nodup : (items.map InsertItem.key).Nodup)
    (nonnegative : ∀ item ∈ items, NonNegative item.key) (known : KnownRows w)
    (invariant : Invariant cfg table state known)
    (within : (DeviceCall.insert maxUpdateSz items).Within cfg table state)
    (result : insert cfg order outcome table maxUpdateSz items state = some (.success, after)) :
    Invariant cfg table after (record cfg (.insert maxUpdateSz items) known) := by
  have effect :=
    insert_replaced sized laws decay order outcome maxUpdateSz items priorities state after
    invariant.counters within result
  have kept := fun work member => (within work member).exactLocations
  have fresh := replacements_fresh sized items state.dTags state.dCounters laws decay
    invariant.counters priorities kept
  have locations := replacements_locations_nodup sized items state.dTags state.dCounters laws decay
    invariant.counters priorities kept within
  generalize replacements items state.dTags state.dCounters sized = plan at effect fresh locations
  have nonneg : ∀ placed ∈ plan, NonNegative (itemAt items placed.2).key := fun placed present =>
    nonnegative _ (itemAt_mem items placed.2 (fresh placed present).1)
  have held : ∀ placed ∈ plan, heldKey cfg table after.dTags placed.1 =
      some (itemAt items placed.2).key := fun placed present =>
      heldKey_constructTag sized marker after.dTags placed.1 _ (nonneg placed present)
      (fresh placed present).2.1 (effect.1.placed placed present)
  -- a slot is either taken by a planned item or as it was
  have change : ∀ slot : CacheSlot cfg, (∃ placed ∈ plan, placed.1 = slot) ∨
      ∀ placed ∈ plan, placed.1 ≠ slot := by
    intro slot
    by_cases taken : ∃ placed ∈ plan, placed.1 = slot
    · exact .inl taken
    · exact .inr fun placed present same => taken ⟨placed, present, same⟩
  refine ⟨effect.2, ?_, ?_, ?_⟩
  · intro slot nonempty
    rcases change slot with ⟨placed, present, rfl⟩ | free
    · exact ⟨_, nonneg placed present, (fresh placed present).2.1, effect.1.placed placed present⟩
    · rw [(effect.1.frame slot free).1] at nonempty ⊢
      exact invariant.placed slot nonempty
  · refine KeyedSlots.Distinct.placeMany invariant.distinct
      (plan.map fun placed => (placed.1, (itemAt items placed.2).key)) ?_ ?_ ?_
    · rw [map_map]
      have keys : (plan.map Prod.snd).map (fun loc => (itemAt items loc).key) =
          plan.map (Prod.snd ∘ fun placed => (placed.1, (itemAt items placed.2).key)) := by
        rw [map_map]
        rfl
      rw [← keys]
      refine locations.map_on fun first left second right same => ?_
      rcases mem_map.mp left with ⟨one, onePresent, rfl⟩
      rcases mem_map.mp right with ⟨two, twoPresent, rfl⟩
      exact itemAt_key_injective items nodup (fresh one onePresent).1 (fresh two twoPresent).1 same
    · intro pair member
      rcases mem_map.mp member with ⟨placed, present, rfl⟩
      intro resident
      rcases resident with ⟨slot, already⟩
      exact (findWay_eq_none_iff sized marker state.dTags invariant.placed _
        (nonneg placed present)).mp
        (fresh placed present).2.2 slot already
    · intro slot
      rcases change slot with ⟨placed, present, rfl⟩ | free
      · exact .inl ⟨_, mem_map_of_mem present, rfl, held placed present⟩
      · exact .inr (heldKey_congr (effect.1.frame slot free).1)
  · intro slot key row here recordedRow
    simp only [record] at recordedRow
    split at recordedRow
    · exact absurd recordedRow (by simp)
    · rename_i unnamed
      rcases change slot with ⟨placed, present, rfl⟩ | free
      · have same : (itemAt items placed.2).key = key :=
          Option.some.inj ((held placed present).symm.trans here)
        exact absurd (same ▸ mem_map_of_mem (itemAt_mem items placed.2 (fresh placed present).1))
          unnamed
      · rw [(effect.1.frame slot free).2]
        rw [heldKey_congr (effect.1.frame slot free).1] at here
        exact invariant.kept slot key row here recordedRow

end Insert

section Shrink

variable [LE C] [Zero C] {cfg : CacheConfig w C} {table : Nat}

theorem Invariant.shrink {state : DeviceState w C} {known : KnownRows w}
    (invariant : Invariant cfg table state known)
    (tags : Tags w) (fewer : KnownRows w)
    (shrinks : ∀ slot : CacheSlot cfg, tags (slot.index table) = cfg.sentinelKey ∨
      tags (slot.index table) = state.dTags (slot.index table))
    (forgets : ∀ key row, fewer key = some row → known key = some row) :
    Invariant cfg table { state with dTags := tags } fewer := by
  refine ⟨invariant.counters, invariant.placed.shrink shrinks, ?_, ?_⟩
  · exact KeyedSlots.Distinct.shrink invariant.distinct fun slot key held =>
      heldKey_of_cleared shrinks held
  · intro slot key row held recordedRow
    exact invariant.kept slot key row (heldKey_of_cleared shrinks held)
      (forgets key row recordedRow)

theorem invalidate_invariant (order : AtomicOrder w) (outcome : Outcome) (maxUpdateSz : Nat)
    (keys : List (BitVec w))
    (state after : DeviceState w C) (known : KnownRows w)
    (invariant : Invariant cfg table state known)
    (result : invalidate cfg order outcome table maxUpdateSz keys state = some (.success, after)) :
    Invariant cfg table after (record cfg (.invalidate maxUpdateSz keys) known) := by
  have forgets : ∀ key row, record cfg (.invalidate maxUpdateSz keys : DeviceCall w C) known key =
      some row →
      known key = some row := by
    intro key row recordedRow
    simp only [record] at recordedRow
    split at recordedRow
    · exact absurd recordedRow (by simp)
    · exact recordedRow
  unfold invalidate at result
  dsimp only at result
  split at result
  · exact absurd result (by simp)
  · rw [runModify_success (Option.some.inj result)]
    rcases sync_cases cfg table outcome keys.length
      (recorded order maxUpdateSz (computeSetInvalidateData cfg table keys state.dTags))
        state with same | cleared
    · exact same.symm ▸ invariant.shrink state.dTags _ (fun _ => .inr rfl) forgets
    · exact cleared.symm ▸ invariant.shrink _ _
        (fun slot => invalidateTagKernel_shrinks _ _ _ _ _) forgets

theorem clearCache_invariant {outcome : Outcome} {state after : DeviceState w C}
    {known : KnownRows w}
    (invariant : Invariant cfg table state known)
    (result : clearCache cfg outcome state = (.success, after)) :
    Invariant cfg table after (record cfg .clearCache known) := by
  rw [applySteps_of_ok _ _ _ result]
  refine invariant.shrink _ _ ?_ fun key row recordedRow => absurd recordedRow (by simp [record])
  intro slot
  split
  · exact .inl rfl
  · exact .inr rfl

end Shrink

section Update

variable {cfg : CacheConfig w C} {table : Nat}

theorem row32_eq_row (buffer : RowBuffer) (i : Nat) (forward : 0 ≤ buffer.stride)
    (small : buffer.stride < 2 ^ 32)
    (within : i * buffer.stride < 2 ^ 32) : buffer.row32 i = buffer.row i := by
  obtain ⟨stride, same⟩ := Int.eq_ofNat_of_zero_le forward
  funext offset
  simp only [RowBuffer.row32, RowBuffer.row, same] at small within ⊢
  have reduced : ((stride : Int) % 2 ^ 32).toNat = stride := by
    rw [Int.emod_eq_of_lt (by omega) small]
    rfl
  have product : wrap32 (i * stride) = i * stride := wrap32_of_lt (by exact_mod_cast within)
  rw [reduced, product]
  push_cast
  rfl

variable (sized : Sized cfg table) (marker : cfg.sentinelKey = -1)

include sized marker

omit marker in
theorem rowOffset_lt (bytes : cfg.numSets * numWays * cfg.embedWidthInBytes ≤ 2 ^ 32)
    (key : BitVec w) {j : Nat}
    (bound : j < numWays) :
    (hashSetIdx key cfg.numSets * numWays + j) * cfg.embedWidthInBytes < 2 ^ 32 := by
  have hash := sized.hash_lt key
  have slot : hashSetIdx key cfg.numSets * numWays + j < cfg.numSets * numWays := by
    simp only [numWays] at bound ⊢
    omega
  cases width : cfg.embedWidthInBytes with
  | zero => simp
  | succ n =>
    rw [width] at bytes
    exact (Nat.mul_lt_mul_of_pos_right slot (Nat.succ_pos n)).trans_le bytes

/-- In range, and with each key in one way, the kernel lists what the host search would list. -/
theorem computeSetUpdateData_eq (keys : List (BitVec w)) (buffer : RowBuffer) (tags : Tags w)
    (memory : Memory)
    (placed : WellPlaced cfg table tags) (distinct : (view cfg table tags memory).Distinct)
    (nonnegative : ∀ key ∈ keys, NonNegative key)
    (bytes : cfg.numSets * numWays * cfg.embedWidthInBytes ≤ 2 ^ 32) (forward : 0 ≤ buffer.stride)
    (small : buffer.stride < 2 ^ 32) (reach : ∀ i < keys.length, i * buffer.stride < 2 ^ 32) :
    computeSetUpdateData cfg table keys buffer tags =
      (updateHits cfg table keys.length tags keys).map (updateEntry cfg table tags buffer) := by
  have all : updateHits cfg table keys.length tags keys =
      keys.zipIdx.filter fun hit => isResident cfg table tags hit.1 :=
    take_of_length_le ((length_filter_le _ _).trans_eq length_zipIdx)
  rw [computeSetUpdateData, setUpdateDataKernel_eq sized marker keys tags memory distinct
    nonnegative, all,
    ← filterMap_eq_map, ← filterMap_eq_filter, filterMap_filterMap]
  apply filterMap_congr
  intro hit member
  have entry := mem_zipIdx_iff_getElem?.mp member
  have position : hit.2 < keys.length := (List.getElem?_eq_some_iff.mp entry).1
  have present : hit.1 ∈ keys := mem_of_getElem? entry
  cases found : findWay cfg table tags hit.1 with
  | none => simp [isResident, found, Option.guard]
  | some j =>
    rcases held_of_findWay sized marker tags hit.1
      (nonnegative _ present) j found with ⟨bound, held⟩
    have tag := (placed.of_held sized held).2.2
    have offset : wrap32 ((hashSetIdx hit.1 cfg.numSets * numWays + j) * cfg.embedWidthInBytes) =
        (hashSetIdx hit.1 cfg.numSets * numWays + j) * cfg.embedWidthInBytes :=
      wrap32_of_lt (rowOffset_lt sized bytes hit.1 bound)
    simp only [CacheSlot.ofKey, CacheSlot.index] at tag
    have resident : isResident cfg table tags hit.1 = true := by simp [isResident, found]
    have listed : updateEntry cfg table tags buffer hit =
        { src := buffer.row hit.2
          dst := (tableBase cfg table + (hashSetIdx hit.1 cfg.numSets * numWays + j)) *
            cfg.embedWidthInBytes
          set := hashSetIdx hit.1 cfg.numSets
          way := j
          tag := constructTag hit.1 cfg.numSets } := by
      rw [← tag]
      simp only [updateEntry, found, Option.getD_some, Nat.add_assoc]
    have kept : Option.guard (fun hit => isResident cfg table tags hit.1) hit = some hit :=
      if_pos resident
    rw [kept, Option.bind_some, Function.comp_apply, listed, Nat.add_mul (tableBase cfg table)]
    simp only [Option.map_some, sized.wrap32_numSets, sized.wrap32_width, offset,
      row32_eq_row buffer hit.2 forward small (reach hit.2 position)]

theorem update_invariant [LE C] [Zero C] [Add C] [Mul C] (order : AtomicOrder w) (outcome : Outcome)
    (maxUpdateSz : Nat)
    (keys : List (BitVec w)) (buffer : RowBuffer) (nodup : keys.Nodup)
    (nonnegative : ∀ key ∈ keys, NonNegative key)
    (state after : DeviceState w C) (known : KnownRows w)
    (invariant : Invariant cfg table state known)
    (bytes : cfg.numSets * numWays * cfg.embedWidthInBytes ≤ 2 ^ 32) (forward : 0 ≤ buffer.stride)
    (small : buffer.stride < 2 ^ 32) (reach : ∀ i < keys.length, i * buffer.stride < 2 ^ 32)
    (result : update cfg order outcome table maxUpdateSz keys buffer state =
      some (.success, after)) :
    Invariant cfg table after (record cfg (.update maxUpdateSz keys buffer) known) := by
  have list :=
    computeSetUpdateData_eq sized marker keys buffer state.dTags state.cache invariant.placed
    invariant.distinct nonnegative bytes forward small reach
  have reached : ∀ slot key, heldKey cfg table state.dTags slot = some key →
      (key ∈ (keys.filter (isResident cfg table state.dTags)).take keys.length ↔ key ∈ keys) := by
    intro slot key held
    have way :=
      findWay_of_held sized marker state.dTags invariant.placed state.cache invariant.distinct
        key slot held
    rw [take_of_length_le (length_filter_le _ _), mem_filter, isResident, way]
    simp
  unfold update at result
  dsimp only at result
  split at result
  · exact absurd result (by simp)
  · rename_i inside
    have count : (computeSetUpdateData cfg table keys buffer state.dTags).length ≤ keys.length := by
      rw [list, length_map]
      exact length_take_le _ _
    have room : (computeSetUpdateData cfg table keys buffer state.dTags).length ≤ maxUpdateSz := by
      have threads := le_launched32 keys.length
      simp only [overrun] at inside
      omega
    rw [recorded_all order maxUpdateSz _ room] at result
    rcases runModify_committed sized (by rw [(order.perm _).length_eq]; exact count) rfl rfl
      (Option.some.inj result)
      with ⟨tags, untouched, rfl⟩
    have members :
        ∀ entry, entry ∈ order.iterate (computeSetUpdateData cfg table keys buffer state.dTags) ↔
        entry ∈ (updateHits cfg table keys.length state.dTags keys).map
          (updateEntry cfg table state.dTags buffer) := by
      intro entry
      rw [(order.perm _).mem_iff, list]
    have republished :=
      update_republished sized marker keys.length state.dTags keys buffer nodup nonnegative
      _ members tags untouched
    rw [republished]
    refine ⟨invariant.counters, invariant.placed, invariant.distinct, ?_⟩
    intro slot key row held recordedRow
    have rows :=
      update_rows sized marker keys.length state.dTags keys buffer nodup nonnegative _ members
      state.cache invariant.distinct slot key held
    simp only [record] at recordedRow
    split at recordedRow
    · rename_i named
      rw [← Option.some.inj recordedRow]
      exact rows.1 ((reached slot key held).mpr named)
    · rename_i unnamed
      rw [← invariant.kept slot key row held recordedRow]
      exact rows.2 (mt (reached slot key held).mp unnamed)

end Update

section Main

variable [LinearOrder C] [Zero C] [Add C] [Mul C]

omit [Add C] [Mul C] in
theorem init_invariant (cfg : CacheConfig w C) (table : Nat) (memory : Memory) :
    Invariant cfg table (init cfg memory) fun _ => none := by
  have empty : ∀ slot, heldKey cfg table (init cfg memory).dTags slot = none :=
    fun slot => if_pos rfl
  refine ⟨fun _ => le_refl _, fun slot nonempty => absurd rfl nonempty, ?_, ?_⟩
  · intro first second key left _
    exact absurd ((empty first).symm.trans left) (by simp)
  · intro slot key row _ known
    exact absurd known (by simp)

variable {cfg : CacheConfig w C} {table : Nat} (sized : Sized cfg table)
  (marker : cfg.sentinelKey = -1)
  (laws : SetWork.CounterLaws C) (decay : 0 ≤ cfg.decayRate)

include sized marker laws decay

theorem perform_invariant (request : DeviceRequest w C) (valid : request.call.Valid)
    (state after : DeviceState w C)
    (known : KnownRows w) (invariant : Invariant cfg table state known)
    (within : request.call.Within cfg table state)
    (result : perform cfg table request state = some (.success, after)) :
    Invariant cfg table after (record cfg request.call known) := by
  rcases valid with ⟨nodup, nonnegative, priorities⟩
  rcases request with ⟨call, order, outcome⟩
  cases call with
  | insert maxUpdateSz items =>
    exact insert_invariant sized laws decay order outcome maxUpdateSz items
      (priorities maxUpdateSz items rfl) state
      after marker nodup (fun item member => nonnegative _ (mem_map_of_mem member)) known invariant
        within result
  | update maxUpdateSz keys buffer =>
    rcases within with ⟨bytes, forward, small, reach⟩
    exact update_invariant sized marker order outcome maxUpdateSz keys buffer nodup nonnegative
      state after known
      invariant bytes forward small reach result
  | invalidate maxUpdateSz keys =>
    exact invalidate_invariant order outcome maxUpdateSz keys state after known invariant result
  | clearCache => exact clearCache_invariant invariant (Option.some.inj result)

theorem run_invariant {start final : Tracked w C} {requests : List (DeviceRequest w C)}
    (run : Run (StepWithin cfg table) start requests final)
    (invariant : Invariant cfg table start.state start.known) :
    Invariant cfg table final.state final.known := by
  refine run.invariant (fun tracked => Invariant cfg table tracked.state tracked.known) ?_ invariant
  intro tracked request next taken before
  rw [taken.known]
  exact perform_invariant sized marker laws decay request taken.valid tracked.state next.state
    tracked.known before
    taken.within taken.result

/-- In a run whose calls are all within range, no key is held by two ways, and a lookup that hits
a key after an `update` of it, with no call naming it since, returns the row of that update. -/
theorem deviceModify_partialMap (memory : Memory) (requests : List (DeviceRequest w C))
    (final : Tracked w C)
    (run : Run (StepWithin cfg table) ⟨init cfg memory, fun _ => none⟩ requests final) :
    (∀ first second key, heldKey cfg table final.state.dTags first = some key →
      heldKey cfg table final.state.dTags second = some key → first = second) ∧
    ∀ key row found, NonNegative key → final.known key = some row →
      lookup cfg table final.state.dTags final.state.cache key = some found → found = row := by
  have invariant := run_invariant sized marker laws decay run (init_invariant cfg table memory)
  refine ⟨invariant.distinct, ?_⟩
  intro key row found nonnegative known hit
  rw [lookup_eq_toMap sized marker _ invariant.placed _ invariant.distinct key nonnegative] at hit
  by_cases resident : (view cfg table final.state.dTags final.state.cache).Resident key
  · rcases resident with ⟨slot, held⟩
    rw [KeyedSlots.toMap_of_held _ invariant.distinct slot key held] at hit
    rw [← Option.some.inj hit]
    exact invariant.kept slot key row held known
  · rw [KeyedSlots.toMap_of_not_resident _ key resident] at hit
    exact absurd hit (by simp)

end Main

section Concrete

def deviceRequest (call : DeviceCall 64 Nat) : DeviceRequest 64 Nat := ⟨call, inOrder, noFailure⟩

def insertFive : DeviceRequest 64 Nat := deviceRequest (.insert 1 [⟨5, 1, fun _ => 0⟩])

def updateFive : DeviceRequest 64 Nat := deviceRequest (.update 1 [5] ⟨fun _ => 42, 1⟩)

def afterRequest (request : DeviceRequest 64 Nat) (tracked : Tracked 64 Nat) : Tracked 64 Nat where
  state := ((perform oneSet 0 request tracked.state).getD (.success, tracked.state)).2
  known := record oneSet request.call tracked.known

theorem stepWithin_afterRequest (request : DeviceRequest 64 Nat) (tracked : Tracked 64 Nat)
    (valid : request.call.Valid) (within : request.call.Within oneSet 0 tracked.state)
    (success : (perform oneSet 0 request tracked.state).map Prod.fst = some .success) :
    StepWithin oneSet 0 tracked request (afterRequest request tracked) := by
  refine ⟨valid, within, ?_, rfl⟩
  rcases Option.map_eq_some_iff.mp success with ⟨⟨code, after⟩, defined, rfl⟩
  rw [afterRequest, defined]
  rfl

def emptyCache : Tracked 64 Nat := ⟨init oneSet fun _ => 0, fun _ => none⟩

theorem insertFive_valid : insertFive.call.Valid :=
  ⟨by simp [insertFive, deviceRequest, DeviceCall.keys],
   by simp [insertFive, deviceRequest, DeviceCall.keys, NonNegative],
   fun _ _ _ item _ => Nat.zero_le item.priority⟩

theorem insertFive_within : insertFive.call.Within oneSet 0 emptyCache.state := by
  simp only [insertFive, deviceRequest, DeviceCall.Within]
  decide +kernel

theorem updateFive_valid : updateFive.call.Valid :=
  ⟨by simp [updateFive, deviceRequest, DeviceCall.keys],
   by simp [updateFive, deviceRequest, DeviceCall.keys, NonNegative],
   fun _ _ _ item _ => Nat.zero_le item.priority⟩

/-- The hypotheses of the theorem at a run that inserts a key and updates it. -/
theorem deviceModify_partialMap_insert_update :
    ∃ final : Tracked 64 Nat, Run (StepWithin oneSet 0) emptyCache [insertFive, updateFive] final ∧
      final.known 5 = some [42] ∧ lookup oneSet 0 final.state.dTags final.state.cache 5 =
        some [42] := by
  let final := afterRequest updateFive (afterRequest insertFive emptyCache)
  have run : Run (StepWithin oneSet 0) emptyCache [insertFive, updateFive] final :=
    .step (stepWithin_afterRequest insertFive emptyCache insertFive_valid insertFive_within
        (by decide +kernel))
      (.step (stepWithin_afterRequest updateFive _ updateFive_valid
        ⟨by decide, by decide, by decide, by decide⟩
          (by decide +kernel))
        (.done _))
  have known : final.known 5 = some [42] := by decide +kernel
  have hit : (lookup oneSet 0 final.state.dTags final.state.cache 5).isSome =
      true := by decide +kernel
  rcases Option.isSome_iff_exists.mp hit with ⟨found, lookedUp⟩
  have result :=
    deviceModify_partialMap oneSet_sized rfl
      ⟨fun _ _ _ _ => Nat.zero_le _, fun _ _ _ _ => Nat.zero_le _⟩
    (Nat.zero_le _) (fun _ => 0) _ final run
  have row := result.2 5 [42] found (by simp [NonNegative]) known lookedUp
  exact ⟨final, run, known, lookedUp.trans (congrArg some row)⟩

def equalItems (count : Nat) : List (InsertItem 64 Nat) :=
  (List.range count).map fun n => ⟨BitVec.ofNat 64 n, 1, fun _ => 0⟩

def insertEqual (count : Nat) : Option (ECError × DeviceState 64 Nat) :=
  insert oneSet inOrder noFailure 0 count (equalItems count) (init oneSet fun _ => 0)

/-- Nine distinct keys of one set with one priority, inserted into an empty cache: the call
succeeds, and key 7 is in all eight ways. -/
theorem insert_equal_priorities_repeats_key :
    ((equalItems 9).map InsertItem.key).Nodup ∧
      (insertEqual 9).map (fun result => (result.1, (List.finRange numWays).map fun way =>
        heldKey oneSet 0 result.2.dTags (⟨0, by decide⟩, way))) =
      some (.success, List.replicate 8 (some 7)) := by
  decide +kernel

end Concrete

end EmbedCache.CacheSADeviceModify
