import EmbedCache.GpuTable
import EmbedCache.HostLists
import EmbedCache.DeviceMap

/-! The tags of both cache classes are those of live keys.

A key is live from its insertion on until it is invalidated or the cache is cleared.
The empty marker of a `GpuTable` cache is a tag, while `invalid_key` is a key: the
constructor stores the one as the other. Whether an empty slot can be taken for a key
depends on the number of sets, by arithmetic modulo `2 ^ w`. -/

namespace EmbedCache

open Lib List CacheSlot Option

variable {w : Nat} {C : Type*}

section Marker

/-- The empty marker rebuilds no key but `invalid_key`: either the table has one set, where tags are
keys, or the marker times the number of sets, modulo `2 ^ w`, is no multiple of the number of
sets. -/
def SentinelApart (config : GPUTableConfig) (cfg : CacheConfig w C) : Prop :=
  (cfg.numSets = 1 ∧ cfg.sentinelKey.toInt = config.invalidKey) ∨
    ¬ cfg.numSets ∣ cfg.sentinelKey.toNat * cfg.numSets % 2 ^ w

instance (config : GPUTableConfig) (cfg : CacheConfig w C) : Decidable (SentinelApart config cfg) :=
  inferInstanceAs (Decidable (_ ∨ _))

variable {config : GPUTableConfig} {cfg : CacheConfig w C}

theorem rebuilt_iff (sized : Sized cfg 0) (tag key : BitVec w) :
    constructKey tag (hashSetIdx key cfg.numSets) cfg.numSets = key ↔
      tag.toNat * cfg.numSets % 2 ^ w = key.toNat / cfg.numSets * cfg.numSets := by
  rw [hashSetIdx_eq key cfg.numSets sized.sets_fit sized.positive, constructKey_eq_iff]

theorem rebuilt_one (sized : Sized cfg 0) (one : cfg.numSets = 1) {tag key : BitVec w}
    (rebuilt : constructKey tag (hashSetIdx key cfg.numSets) cfg.numSets = key) : key = tag := by
  rw [rebuilt_iff sized, one, Nat.mul_one, Nat.div_one, Nat.mul_one,
    Nat.mod_eq_of_lt tag.isLt] at rebuilt
  exact BitVec.eq_of_toNat_eq rebuilt.symm

theorem SentinelApart.rebuilt (apart : SentinelApart config cfg) (sized : Sized cfg 0)
    {key : BitVec w}
    (rebuilt : constructKey cfg.sentinelKey (hashSetIdx key cfg.numSets) cfg.numSets = key) :
    cfg.numSets = 1 ∧ key = cfg.sentinelKey ∧ key.toInt = config.invalidKey := by
  rcases apart with ⟨one, invalid⟩ | indivisible
  · have same := rebuilt_one sized one rebuilt
    exact ⟨one, same, same ▸ invalid⟩
  · rw [rebuilt_iff sized] at rebuilt
    exact absurd ⟨key.toNat / cfg.numSets, by rw [rebuilt, Nat.mul_comm]⟩ indivisible

theorem exists_rebuilt (sized : Sized cfg 0)
    (marker : cfg.sentinelKey = BitVec.ofInt w config.invalidKey)
    (mixed : ¬ SentinelApart config cfg) :
    ∃ key : BitVec w, key.toInt ≠ config.invalidKey ∧
      constructKey cfg.sentinelKey (hashSetIdx key cfg.numSets) cfg.numSets = key := by
  have wide := sized.wide
  have fits := sized.sets_fit
  have positive := sized.positive
  simp only [SentinelApart, not_or, not_not] at mixed
  rcases mixed with ⟨notOne, divides⟩
  generalize product : cfg.sentinelKey.toNat * cfg.numSets % 2 ^ w = q at divides
  have small : q < 2 ^ w := product ▸ Nat.mod_lt _ (Nat.two_pow_pos w)
  have first :
      constructKey cfg.sentinelKey (hashSetIdx (BitVec.ofNat w q) cfg.numSets) cfg.numSets =
      BitVec.ofNat w q := by
    rw [rebuilt_iff sized, product, BitVec.toNat_ofNat, Nat.mod_eq_of_lt small,
      Nat.div_mul_cancel divides]
  by_cases invalid : (BitVec.ofNat w q).toInt = config.invalidKey
  · -- the smallest rebuilt key is the invalid key itself, so the next one is taken
    have own : cfg.sentinelKey = BitVec.ofNat w q := by rw [marker, ← invalid, BitVec.ofInt_toInt]
    have several : 2 ≤ cfg.numSets := by
      by_contra few
      have one : cfg.numSets = 1 := by omega
      exact notOne ⟨one, own ▸ invalid⟩
    have value : cfg.sentinelKey.toNat =
        q := by rw [own, BitVec.toNat_ofNat, Nat.mod_eq_of_lt small]
    have room : q + 1 < 2 ^ w := by
      by_contra full
      have top : q = 2 ^ w - 1 := by omega
      have power : 2 ^ 32 ≤ 2 ^ w := Nat.pow_le_pow_right (by omega) wide
      rw [value, top, top_mul_mod (fits.trans power) positive] at product
      omega
    have next : (q + 1) / cfg.numSets * cfg.numSets = q := by
      rcases divides with ⟨count, rfl⟩
      rw [Nat.mul_add_div positive, Nat.div_eq_of_lt several, Nat.add_zero, Nat.mul_comm]
    refine ⟨BitVec.ofNat w (q + 1), ?_, ?_⟩
    · intro same
      have equal := congrArg BitVec.toNat (BitVec.eq_of_toInt_eq (same.trans invalid.symm))
      rw [BitVec.toNat_ofNat, BitVec.toNat_ofNat, Nat.mod_eq_of_lt room,
        Nat.mod_eq_of_lt small] at equal
      omega
    · rw [rebuilt_iff sized, product, BitVec.toNat_ofNat, Nat.mod_eq_of_lt room, next]
  · exact ⟨_, invalid, first⟩

end Marker

section Covered

/-- Every slot is empty or carries the tag of a live key of its set. -/
def Covered (cfg : CacheConfig w C) (tags : Tags w) (live : Set (BitVec w)) : Prop :=
  ∀ slot : CacheSlot cfg, tags (slot.index 0) = cfg.sentinelKey ∨
    ∃ key ∈ live, hashSetIdx key cfg.numSets = slot.1 ∧
      tags (slot.index 0) = constructTag key cfg.numSets

variable {config : GPUTableConfig} {cfg : CacheConfig w C} {tags : Tags w} {live : Set (BitVec w)}

theorem Covered.mono (covered : Covered cfg tags live) {more : Set (BitVec w)}
    (grows : live ⊆ more) :
    Covered cfg tags more := by
  intro slot
  rcases covered slot with empty | ⟨key, member, rest⟩
  · exact .inl empty
  · exact .inr ⟨key, grows member, rest⟩

theorem Covered.change (covered : Covered cfg tags live) {after : Tags w}
    (changes : ∀ slot : CacheSlot cfg, after (slot.index 0) = cfg.sentinelKey ∨
      after (slot.index 0) = tags (slot.index 0) ∨
      ∃ key ∈ live, hashSetIdx key cfg.numSets = slot.1 ∧
        after (slot.index 0) = constructTag key cfg.numSets) :
    Covered cfg after live := by
  intro slot
  rcases changes slot with empty | same | placed
  · exact .inl empty
  · rw [same]
    exact covered slot
  · exact .inr placed

theorem Covered.remove (sized : Sized cfg 0) (covered : Covered cfg tags live)
    (keys : List (BitVec w)) {after : Tags w}
    (cleared : ∀ slot : CacheSlot cfg, after (slot.index 0) = cfg.sentinelKey ∨
      (after (slot.index 0) = tags (slot.index 0) ∧
        ∀ key ∈ keys, hashSetIdx key cfg.numSets = slot.1 →
        constructKey (tags (slot.index 0)) slot.1 cfg.numSets ≠ key)) :
    Covered cfg after (live \ {key | key ∈ keys}) := by
  intro slot
  rcases cleared slot with empty | ⟨same, others⟩
  · exact .inl empty
  · rcases covered slot with empty | ⟨key, member, set, tag⟩
    · exact .inl (same.trans empty)
    · refine .inr ⟨key, ⟨member, ?_⟩, set, same.trans tag⟩
      intro removed
      refine others key removed set ?_
      rw [tag, ← set, constructKey_constructTag_hash key cfg.numSets sized.sets_fit sized.positive]

theorem Covered.tag_of_rebuilt (sized : Sized cfg 0) (apart : SentinelApart config cfg)
    (covered : Covered cfg tags live)
    (key : BitVec w) (way : Fin numWays)
    (rebuilt : constructKey (tags ((ofKey sized key way).index 0)) (hashSetIdx key cfg.numSets)
      cfg.numSets = key) :
    tags ((ofKey sized key way).index 0) = constructTag key cfg.numSets ∧
      (key ∈ live ∨ key.toInt = config.invalidKey) := by
  rcases covered (ofKey sized key way) with empty | ⟨other, member, set, tag⟩
  · rw [empty] at rebuilt ⊢
    rcases apart.rebuilt sized rebuilt with ⟨one, same, invalid⟩
    refine ⟨?_, .inr invalid⟩
    rw [← same, one]
    exact BitVec.eq_of_toNat_eq (by rw [constructTag_toNat, Nat.div_one])
  · have equal : other = key := by
      rw [tag, show hashSetIdx key cfg.numSets = hashSetIdx other cfg.numSets from set.symm,
        constructKey_constructTag_hash other cfg.numSets sized.sets_fit sized.positive] at rebuilt
      exact rebuilt
    exact ⟨equal ▸ tag, .inl (equal ▸ member)⟩

theorem Covered.lookup_none (sized : Sized cfg 0) (apart : SentinelApart config cfg)
    (covered : Covered cfg tags live)
    (memory : Memory) (key : BitVec w) (valid : key.toInt ≠ config.invalidKey) (dead : key ∉ live) :
    lookup cfg 0 tags memory key = none := by
  have missed : findWay cfg 0 tags key = none := by
    simp only [findWay, searchWays, List.find?_eq_none, mem_range, beq_iff_eq]
    intro j bound rebuilt
    rcases (covered.tag_of_rebuilt sized apart key ⟨j, bound⟩ rebuilt).2 with member | invalid
    · exact dead member
    · exact valid invalid
  rw [lookup, queryAddress, sized.wayOfMask_eq, missed]
  rfl

theorem covered_empty (cfg : CacheConfig w C) (live : Set (BitVec w)) :
    Covered cfg (fun _ => cfg.sentinelKey) live :=
  fun _ => .inl rfl

end Covered

namespace CacheSAHostModify

structure Live (cfg : CacheConfig w C) (live : Set (BitVec w)) (state : HostState w C) : Prop where
  synced : state.dTags = state.hTags
  covered : Covered cfg state.hTags live

variable {cfg : CacheConfig w C} (sized : Sized cfg 0) {arithmetic : RowArithmetic}
  {outcome : Outcome}
  {live : Set (BitVec w)} {state after : HostState w C} {maxUpdateSz : Nat}
  (before : Live cfg live state)

include sized before

theorem insert_live [LT C] [DecidableLT C] [Add C] [Mul C] {order : MapOrder w}
    {items : List (InsertItem w C)}
    (result : insert cfg arithmetic order outcome 0 maxUpdateSz items state = (.success, after)) :
    Live cfg (live ∪ {key | key ∈ items.map InsertItem.key}) after := by
  have listed :=
    insertScan_listed sized maxUpdateSz items state.hTags (decayCounters cfg 0 state.hCounters)
  have published := modify_published result (by simp)
  have grown :=
    before.covered.mono (Set.subset_union_left (t := {key | key ∈ items.map InsertItem.key}))
  constructor
  · rw [published.1, published.2]
    simp only [before.synced]
    exact listed.republished sized order
  · rw [published.2]
    refine grown.change ?_
    intro slot
    by_cases taken : ∃ placed ∈ (insertScan cfg 0 maxUpdateSz items
        ⟨state.hTags, decayCounters cfg 0 state.hCounters, []⟩).insertMap,
        tableBase cfg 0 + placed.1 = slot.index 0
    · rcases taken with ⟨placed, member, place⟩
      rcases listed.entry placed member with ⟨target, item, present, where_, set, _, tag, _⟩
      have same : target = slot := index_injective (where_.symm.trans place)
      subst same
      exact .inr (.inr ⟨item.key, .inr (mem_map_of_mem present), set, tag⟩)
    · exact .inr (.inl (listed.frame _ fun placed member same => taken ⟨placed, member, same⟩))

theorem modify_hits_live {request : ModifyRequest} (publishes : request.op ≠ .invalidate)
    {keys : List (BitVec w)}
    {buffer : RowBuffer} (result : modify cfg arithmetic outcome request 0
      (searchTagStorageForUpdate cfg 0 maxUpdateSz state.hTags buffer 0 keys []) state =
        (.success, after)) :
    Live cfg live after := by
  have published := modify_published result publishes
  have own : ∀ entry ∈ searchTagStorageForUpdate cfg 0 maxUpdateSz state.hTags buffer 0 keys [],
      entry.tag = state.hTags (entry.slot (tableBase cfg 0)) := by
    intro entry member
    rw [searchTagStorageForUpdate_eq sized] at member
    rcases mem_map.mp member with ⟨hit, inside, rfl⟩
    exact updateEntry_own sized state.hTags buffer hit (mem_filter.mp (mem_of_mem_take inside)).2
  constructor
  · rw [published.1, published.2, before.synced]
    exact tagUpdateKernel_own _ _ _ _ own fun i absent =>
      invalidateTagKernel_absent _ _ _ _ i absent
  · rw [published.2]
    exact before.covered

theorem invalidate_live {keys : List (BitVec w)}
    (result : invalidate cfg arithmetic outcome 0 maxUpdateSz keys state = some (.success, after)) :
    Live cfg (live \ {key | key ∈ keys}) after := by
  have listed := invalidateScan_listed sized keys state.hTags
  unfold invalidate at result
  dsimp only at result
  split at result
  · exact absurd result (by simp)
  · rw [modify_invalidated (some.inj result) rfl]
    constructor
    · simp only [before.synced]
      exact listed.republished
    · refine before.covered.remove sized keys ?_
      intro slot
      by_cases empty : (invalidateScan cfg 0 keys state.hTags).1 (slot.index 0) = cfg.sentinelKey
      · exact .inl empty
      · have same := (listed.cleared_or_same (slot.index 0)).resolve_left empty
        refine .inr ⟨same, ?_⟩
        intro key member set
        have probe :=
          listed.gone (key, slot.2) ((mem_probes keys key slot.2).mpr ⟨member, slot.2.isLt⟩)
        have place : probeSlot cfg 0 (key, slot.2.val) = slot.index 0 := by
          simp only [probeSlot, index, set]
        simp only [place, set, same] at probe
        rw [same] at empty
        exact probe.resolve_left empty

theorem clearCache_live [Zero C] (result : clearCache cfg outcome state = (.success, after)) :
    Live cfg ∅ after := by
  rw [applySteps_of_ok _ _ _ result]
  constructor
  · funext i
    simp only [applySteps_cons, applySteps_nil, before.synced]
    split_ifs <;> rfl
  · intro slot
    exact .inl (if_pos (sized.index_lt_total slot))

end CacheSAHostModify

namespace CacheSADeviceModify

structure Live [LE C] [Zero C] (cfg : CacheConfig w C) (live : Set (BitVec w))
    (state : DeviceState w C) : Prop where
  counters : ∀ i, 0 ≤ state.dCounters i
  covered : Covered cfg state.dTags live

variable {outcome : Outcome} {prepare : List (DeviceStep w C)} {numKeys : Nat}
  {list : List (ModifyEntry w)}
  {rows : DeviceStep w C} {state after : DeviceState w C}
  (rowsTags : ∀ state, (rows.effect state).dTags = state.dTags)
  (rowsCounters : ∀ state, (rows.effect state).dCounters = state.dCounters)

include rowsTags rowsCounters in
theorem runModify_published {cfg : CacheConfig w C}
    (keepsTags : (applySteps prepare state).dTags = state.dTags)
    (result : runModify outcome prepare (invalidateTagsAndSync cfg 0 numKeys list)
      [rows, tagUpdateStep cfg 0 numKeys list] state = (.success, after)) :
    ∃ cleared : Tags w,
      (∀ i, cleared i = cfg.sentinelKey ∨ cleared i = state.dTags i) ∧
      (∀ i, (∀ entry ∈ list.take (launched32 numKeys), entry.slot (tableBase cfg 0) ≠ i) →
        cleared i = state.dTags i) ∧
      after.dTags = tagUpdateKernel (list.take (launched32 numKeys)) (tableBase cfg 0) cleared ∧
      after.dCounters = (applySteps prepare state).dCounters := by
  rw [runModify_success result]
  rcases sync_cases cfg 0 outcome numKeys list (applySteps prepare state) with same | cleared
  · refine ⟨state.dTags, fun _ => .inr rfl, fun _ _ => rfl, ?_⟩
    rw [same]
    simp only [applySteps_cons, applySteps_nil, tagUpdateStep, callTagUpdateKernel, rowsTags,
      rowsCounters, keepsTags]
    exact ⟨trivial, trivial⟩
  · refine ⟨invalidateTagKernel (list.take (launched32 numKeys))
      (tableBase cfg 0) cfg.sentinelKey state.dTags,
      fun i => invalidateTagKernel_shrinks _ _ _ _ i,
        fun i absent => invalidateTagKernel_absent _ _ _ _ i absent, ?_⟩
    rw [cleared]
    simp only [applySteps_cons, applySteps_nil, tagUpdateStep, callTagUpdateKernel,
      callTagInvalidateKernel,
      rowsTags, rowsCounters, keepsTags]
    exact ⟨trivial, trivial⟩

section Update

variable [LE C] [Zero C] {config : GPUTableConfig} {cfg : CacheConfig w C} (sized : Sized cfg 0)
  (apart : SentinelApart config cfg) {live : Set (BitVec w)}

include rowsTags rowsCounters in
theorem runModify_hits_live (before : Live cfg live state)
    (own : ∀ entry ∈ list, entry.tag = state.dTags (entry.slot (tableBase cfg 0)))
    (result : runModify outcome (updatePrepare numKeys) (invalidateTagsAndSync cfg 0 numKeys list)
      [rows, tagUpdateStep cfg 0 numKeys list] state = (.success, after)) : Live cfg
        live after := by
  rcases runModify_published rowsTags rowsCounters rfl
    result with ⟨cleared, _, untouched, tags, counters⟩
  constructor
  · rw [counters]
    exact before.counters
  · rw [tags, tagUpdateKernel_own _ _ state.dTags cleared _ untouched]
    · exact before.covered
    · exact fun entry member => own entry (mem_of_mem_take member)

include sized apart

omit [LE C] [Zero C] in
theorem computeSetUpdateData_own (order : AtomicOrder w) (maxUpdateSz : Nat)
    (keys : List (BitVec w)) (buffer : RowBuffer)
    (covered : Covered cfg state.dTags live) (entry : ModifyEntry w)
    (member : entry ∈ recorded order maxUpdateSz
      (computeSetUpdateData cfg 0 keys buffer state.dTags)) :
    entry.tag = state.dTags (entry.slot (tableBase cfg 0)) := by
  replace member := (order.perm _).mem_iff.mp (mem_of_mem_take member)
  simp only [computeSetUpdateData, setUpdateDataKernel, mem_flatMap, mem_filterMap,
    mem_range] at member
  rcases member with ⟨hit, _, j, bound, made⟩
  split at made
  · rename_i rebuilt
    have names : entry.Names (ofKey sized hit.1 ⟨j, bound⟩) := by
      rw [← some.inj made]
      exact ⟨by simp only [ofKey, sized.wrap32_numSets], rfl⟩
    have place := names.slot_eq sized
    have offset := sized.wrap32_offset hit.1
    rw [sized.wrap32_numSets, offset] at rebuilt
    rw [place, (covered.tag_of_rebuilt sized apart hit.1 ⟨j, bound⟩ rebuilt).1, ← some.inj made,
      sized.wrap32_numSets]
  · exact absurd made (by simp)

theorem update_live (order : AtomicOrder w) (outcome : Outcome) (maxUpdateSz : Nat)
    (keys : List (BitVec w))
    (buffer : RowBuffer) {after : DeviceState w C} (before : Live cfg live state)
    (result : update cfg order outcome 0 maxUpdateSz keys buffer state = some (.success, after)) :
    Live cfg live after := by
  unfold update at result
  dsimp only at result
  split at result
  · exact absurd result (by simp)
  · exact runModify_hits_live (fun _ => rfl) (fun _ => rfl) before
      (computeSetUpdateData_own sized apart order maxUpdateSz keys buffer before.covered)
        (some.inj result)

theorem updateAccumulate_live (arithmetic : RowArithmetic) (order : AtomicOrder w)
    (outcome : Outcome)
    (maxUpdateSz : Nat) (updateFormat cacheFormat : DataTypeFormat) (keys : List (BitVec w))
    (buffer : RowBuffer)
    {after : DeviceState w C} (before : Live cfg live state)
    (result : updateAccumulate cfg arithmetic order outcome 0 maxUpdateSz updateFormat cacheFormat
      keys buffer state =
      some (.success, after)) :
    Live cfg live after := by
  unfold updateAccumulate at result
  dsimp only at result
  split at result
  · exact absurd result (by simp)
  · exact runModify_hits_live (fun _ => rfl) (fun _ => rfl) before
      (computeSetUpdateData_own sized apart order maxUpdateSz keys buffer before.covered)
        (some.inj result)

end Update

section Remove

variable [LE C] [Zero C] {cfg : CacheConfig w C} (sized : Sized cfg 0) {live : Set (BitVec w)}
  {state : DeviceState w C}

include sized

omit [LE C] [Zero C] in
theorem computeSetInvalidateData_lists (keys : List (BitVec w)) (tags : Tags w)
    (slot : CacheSlot cfg) (key : BitVec w)
    (named : key ∈ keys) (set : hashSetIdx key cfg.numSets = slot.1)
    (rebuilt : constructKey (tags (slot.index 0)) slot.1 cfg.numSets = key) :
    ∃ entry ∈ computeSetInvalidateData cfg 0 keys tags, entry.slot (tableBase cfg 0) =
      slot.index 0 := by
  have offset : wrap32 (hashSetIdx key cfg.numSets * numWays) =
      hashSetIdx key cfg.numSets * numWays := by
    have hash := sized.hash_lt key
    have small := sized.sets_small
    exact wrap32_of_lt (by simp only [numWays]; omega)
  rcases mem_iff_getElem?.mp named with ⟨i, here⟩
  let entry : ModifyEntry w := ⟨fun _ => 0, 0, hashSetIdx key cfg.numSets, slot.2, cfg.sentinelKey⟩
  have names : entry.Names slot := ⟨set, rfl⟩
  refine ⟨entry, ?_, names.slot_eq sized⟩
  simp only [computeSetInvalidateData, setUpdateDataKernel, mem_flatMap, mem_filterMap, mem_range]
  refine ⟨(key, i), mem_zipIdx_iff_getElem?.mpr here, slot.2, slot.2.isLt, ?_⟩
  simp only [sized.wrap32_numSets, offset]
  rw [if_pos]
  rw [set]
  exact rebuilt

/-- `invalidate` with successful calls and a thread for every listed way removes its keys. -/
theorem invalidate_live (order : AtomicOrder w) (outcome : Outcome) (maxUpdateSz : Nat)
    (keys : List (BitVec w))
    {after : DeviceState w C} (calls : ∀ call, outcome call = .success)
    (threads : (computeSetInvalidateData cfg 0 keys state.dTags).length ≤ launched32 keys.length)
    (before : Live cfg live state)
    (result : invalidate cfg order outcome 0 maxUpdateSz keys state = some (.success, after)) :
    Live cfg (live \ {key | key ∈ keys}) after := by
  unfold invalidate at result
  dsimp only at result
  split at result
  · exact absurd result (by simp)
  · rename_i inside
    have room : (computeSetInvalidateData cfg 0 keys state.dTags).length ≤ maxUpdateSz := by
      simp only [overrun] at inside
      omega
    have all : List.take (launched32 keys.length)
        (order.iterate (computeSetInvalidateData cfg 0 keys state.dTags)) =
        order.iterate (computeSetInvalidateData cfg 0 keys state.dTags) :=
      take_of_length_le (by rw [(order.perm _).length_eq]; exact threads)
    rw [recorded_all order maxUpdateSz _ room] at result
    have effect := runModify_success (some.inj result)
    rw [performed_of_ok] at effect
    · simp only [updatePrepare, invalidateTagsAndSync, applySteps_cons, applySteps_nil, id_eq,
        callTagInvalidateKernel, all] at effect
      subst effect
      refine ⟨before.counters, before.covered.remove sized keys ?_⟩
      intro slot
      by_cases named : ∃ entry ∈ order.iterate (computeSetInvalidateData cfg 0 keys state.dTags),
          entry.slot (tableBase cfg 0) = slot.index 0
      · rcases named with ⟨entry, member, place⟩
        rw [← place]
        exact .inl (invalidateTagKernel_present _ _ _ _ entry member)
      · have absent : ∀ entry ∈ order.iterate (computeSetInvalidateData cfg 0 keys state.dTags),
            entry.slot (tableBase cfg 0) ≠ slot.index 0 := fun entry member same =>
              named ⟨entry, member, same⟩
        refine .inr ⟨invalidateTagKernel_absent _ _ _ _ _ absent, ?_⟩
        intro key listed set rebuilt
        rcases computeSetInvalidateData_lists sized keys state.dTags slot key listed set
          rebuilt with
          ⟨entry, member, place⟩
        exact absent entry ((order.perm _).mem_iff.mpr member) place
    · intro step member
      simp only [invalidateTagsAndSync, mem_cons, not_mem_nil, or_false] at member
      rcases member with rfl | rfl | rfl | rfl <;> exact calls _

theorem clearCache_live {outcome : Outcome} {after : DeviceState w C} (before : Live cfg live state)
    (result : clearCache cfg outcome state = (.success, after)) : Live cfg ∅ after := by
  rw [applySteps_of_ok _ _ _ result]
  refine ⟨before.counters, ?_⟩
  intro slot
  exact .inl (if_pos (sized.index_lt_total slot))

end Remove

section Insert

variable [LinearOrder C] [Zero C] [Add C] [Mul C] {cfg : CacheConfig w C} (sized : Sized cfg 0)
  (laws : SetWork.CounterLaws C) (decay : 0 ≤ cfg.decayRate) {live : Set (BitVec w)}
  {state : DeviceState w C}

include sized laws decay

/-- `insert` of at most `2 ^ 24` items brings in keys of the call only, each in its own set. -/
theorem insert_live (order : AtomicOrder w) (outcome : Outcome) (maxUpdateSz : Nat)
    (items : List (InsertItem w C))
    (priorities : ∀ item ∈ items, 0 ≤ item.priority) (few : items.length ≤ 2 ^ 24)
    {after : DeviceState w C}
    (before : Live cfg live state)
    (result : insert cfg order outcome 0 maxUpdateSz items state = some (.success, after)) :
    Live cfg (live ∪ {key | key ∈ items.map InsertItem.key}) after := by
  have fresh := replacements_fresh sized items state.dTags state.dCounters laws decay
    before.counters priorities (groupBySet_exact sized items state.dTags state.dCounters few)
  have nonneg :=
    replaceCounters_nonneg sized items state.dTags state.dCounters laws decay
      before.counters priorities
  have list := replaceEntries_eq_replacements sized items state.dTags state.dCounters
  unfold insert at result
  split at result
  · exact absurd result (by simp)
  · dsimp only at result
    generalize computeSetReplaceData cfg 0 items state.dTags state.dCounters =
      data at result nonneg list
    generalize replacements items state.dTags state.dCounters sized = plan at fresh list
    rcases runModify_published (fun _ => rfl) (fun _ => rfl) rfl
      (some.inj result) with ⟨cleared, shrinks, _, tags, counters⟩
    have grown :=
      before.covered.mono (Set.subset_union_left (t := {key | key ∈ items.map InsertItem.key}))
    constructor
    · rw [counters]
      exact nonneg
    · rw [tags]
      refine grown.change ?_
      intro slot
      rcases tagUpdateKernel_cases
        ((recorded order maxUpdateSz data.1).take (launched32 items.length))
        (tableBase cfg 0) cleared (slot.index 0) with kept | ⟨entry, member, place, published⟩
      · rw [kept]
        rcases shrinks (slot.index 0) with empty | same
        · exact .inl empty
        · exact .inr (.inl same)
      · have listed := (order.perm _).mem_iff.mp (mem_of_mem_take (mem_of_mem_take member))
        rw [list] at listed
        rcases mem_map.mp listed with ⟨placed, planned, rfl⟩
        have target : placed.1 = slot :=
          index_injective (((insertEntry_names 0 _ placed.1).slot_eq sized).symm.trans place)
        refine .inr (.inr ⟨(itemAt items placed.2).key, ?_, ?_, published⟩)
        · exact .inr (mem_map_of_mem (itemAt_mem items placed.2 (fresh placed planned).1))
        · rw [← target]
          exact (fresh placed planned).2.1

end Insert

end CacheSADeviceModify

end EmbedCache
