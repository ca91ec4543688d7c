import EmbedCache.DeviceSelection
import EmbedCache.DeviceModify
import EmbedCache.HostLists
import EmbedCache.Residency

/-! The lists built by the device kernels, stated over slots of the table. -/

namespace EmbedCache.CacheSADeviceModify

open Lib List SetWork Function

variable {w : Nat} {C : Type*} [Zero C] (items : List (InsertItem w C)) (loc : Nat)

theorem itemAt_of_lt (bound : loc < items.length) :
    itemAt items loc = items[loc] := by
  simp [itemAt, bound]

theorem itemAt_mem (bound : loc < items.length) :
    itemAt items loc ∈ items := by
  rw [itemAt_of_lt items loc bound]
  exact getElem_mem bound

theorem itemAt_key_injective (nodup : (items.map InsertItem.key).Nodup) {first second : Nat}
    (left : first < items.length) (right : second < items.length)
    (same : (itemAt items first).key = (itemAt items second).key) : first = second := by
  rw [itemAt_of_lt items first left, itemAt_of_lt items second right] at same
  have keys : (items.map InsertItem.key)[first]? = (items.map InsertItem.key)[second]? := by
    simp [left, right, same]
  exact (List.getElem?_inj (by simpa using left) nodup).mp keys

/-- The part of `groupBySet` that belongs to one set. -/
structure IsWork (cfg : CacheConfig w C) (table : Nat) (items : List (InsertItem w C))
    (tags : Tags w)
    (counters : Nat → C) (work : SetWork w C) : Prop where
  bound : work.set < cfg.numSets
  numSets : work.numSets = cfg.numSets
  sentinel : work.sentinel = cfg.sentinelKey
  ways : ∀ x : Lane, work.ways x = tags (tableBase cfg table + work.set * numWays + x)
  ownCounters : ∀ x : Lane, work.counters x = counters (work.set * numWays + x)
  allItems : work.items = items
  locations : work.locations =
    (List.range items.length).filter fun loc =>
      hashSetIdx (itemAt items loc).key cfg.numSets = work.set

section Works

variable {cfg : CacheConfig w C} {table : Nat} (sized : Sized cfg table)
  (items : List (InsertItem w C))
  (tags : Tags w) (counters : Nat → C)

include sized

theorem groupBySet_isWork (work : SetWork w C)
    (member : work ∈ groupBySet cfg table items tags counters) :
    IsWork cfg table items tags counters work := by
  rcases mem_map.mp member with ⟨set, chosen, rfl⟩
  have bound : set < cfg.numSets := by
    have inside := mem_range.mp (mem_of_mem_filter chosen)
    rw [sized.wrap32_numSets] at inside
    exact inside
  have small := sized.sets_small
  have offset : wrap32 (set * numWays) = set * numWays :=
    wrap32_of_lt (by simp only [numWays]; omega)
  exact ⟨bound, sized.wrap32_numSets, rfl,
    fun x => by simp only [offset], fun x => by simp only [offset], rfl,
    by simp only [sized.wrap32_numSets]⟩

omit sized in
theorem groupBySet_sets_nodup :
    ((groupBySet cfg table items tags counters).map SetWork.set).Nodup := by
  rw [groupBySet, map_map]
  have whole : (SetWork.set ∘ fun set => (⟨wrap32 cfg.numSets, set, cfg.sentinelKey,
      fun x => tags (tableBase cfg table + wrap32 (set * numWays) + x),
      fun x => counters (wrap32 (set * numWays) + x), items,
      (List.range items.length).filter fun loc =>
        hashSetIdx (itemAt items loc).key (wrap32 cfg.numSets) = set⟩ :
        SetWork w C)) = id := rfl
  rw [whole, map_id]
  exact nodup_range.filter _

end Works

section Work

variable {cfg : CacheConfig w C} {table : Nat} {items : List (InsertItem w C)} {tags : Tags w}
  {counters : Nat → C} {work : SetWork w C} (isWork : IsWork cfg table items tags counters work)

include isWork

theorem IsWork.mem_locations :
    loc ∈ work.locations ↔ loc < items.length ∧
      hashSetIdx (itemAt items loc).key cfg.numSets = work.set := by
  rw [isWork.locations, mem_filter, mem_range, decide_eq_true_eq]

theorem IsWork.locations_nodup : work.locations.Nodup := by
  rw [isWork.locations]
  exact nodup_range.filter _

theorem IsWork.locations_small (few : items.length ≤ 2 ^ 24) :
    ∀ loc ∈ work.locations, loc < 2 ^ 24 := by
  intro loc member
  have inside := ((isWork.mem_locations loc).mp member).1
  omega

theorem IsWork.findWay_none (member : loc ∈ work.locations) (fresh : work.isHit loc = false) :
    findWay cfg table tags (itemAt items loc).key = none := by
  have set := ((isWork.mem_locations loc).mp member).2
  simp only [findWay, searchWays, List.find?_eq_none, mem_range, beq_iff_eq, set]
  intro j bound hit
  simp only [SetWork.isHit, any_eq_false, mem_finRange, SetWork.matchesWay, beq_iff_eq, isWork.ways,
    isWork.numSets, isWork.allItems, forall_const] at fresh
  exact fresh ⟨j, bound⟩ hit

theorem IsWork.bumped_nonneg [LinearOrder C] [Add C] [Mul C] (laws : CounterLaws C)
    (nonneg : ∀ i, 0 ≤ counters i)
    (priorities : ∀ item ∈ items, 0 ≤ item.priority) (x : Lane) : 0 ≤ work.bumped x := by
  apply work.bumped_nonneg laws
  · intro y
    rw [isWork.ownCounters]
    exact nonneg _
  · intro loc member
    rw [isWork.allItems]
    exact priorities _ (itemAt_mem items loc ((isWork.mem_locations loc).mp member).1)

end Work

section Replace

variable [LinearOrder C] [Add C]

def replacePlan (works : List (SetWork w C)) : List (SetWork w C × Lane) :=
  works.flatMap fun work => work.writers.map fun x => (work, x)

theorem mem_replacePlan {works : List (SetWork w C)} {work : SetWork w C} {x : Lane}
    (member : (work, x) ∈ replacePlan works) : work ∈ works ∧ x ∈ work.writers := by
  rcases mem_flatMap.mp member with ⟨other, inside, paired⟩
  rcases mem_map.mp paired with ⟨lane, writes, same⟩
  cases same
  exact ⟨inside, writes⟩

/-- A label of the planned writes is never used twice, if one set does not repeat it and it
determines the set. -/
theorem replacePlan_map_nodup {β : Type*} {works : List (SetWork w C)}
    (label : SetWork w C × Lane → β)
    (sets : (works.map SetWork.set).Nodup)
    (inside : ∀ work ∈ works, ∀ x ∈ work.writers, ∀ y ∈ work.writers,
      label (work, x) = label (work, y) → x = y)
    (across : ∀ first ∈ works, ∀ second ∈ works, ∀ x ∈ first.writers, ∀ y ∈ second.writers,
      label (first, x) = label (second, y) → first.set = second.set) :
    ((replacePlan works).map label).Nodup := by
  rw [replacePlan, map_flatMap, nodup_flatMap]
  constructor
  · intro work member
    rw [map_map]
    exact work.writers_nodup.map_on (inside work member)
  · have apart : works.Pairwise fun first second => first.set ≠ second.set := pairwise_map.mp sets
    refine apart.imp_of_mem ?_
    intro first second left right different value one two
    simp only [map_map] at one two
    rcases mem_map.mp one with ⟨x, writes, rfl⟩
    rcases mem_map.mp two with ⟨y, others, same⟩
    exact different (across first left second right x writes y others same.symm)

variable [Mul C] {cfg : CacheConfig w C} {table : Nat} (sized : Sized cfg table)
  (items : List (InsertItem w C)) (tags : Tags w) (counters : Nat → C)

theorem replaceEntries_eq :
    (computeSetReplaceData cfg table items tags counters).1 =
      (replacePlan (groupBySet cfg table items tags (decayedCounters cfg counters))).map
        fun write => write.1.entry (tableBase cfg table) cfg.embedWidthInBytes write.2 := by
  simp only [computeSetReplaceData, replacePlan, map_flatMap, map_map]
  rfl

omit [Add C] in
theorem decayedCounters_nonneg (cfg : CacheConfig w C) (counters : Nat → C) [Add C]
    (laws : CounterLaws C) (decay : 0 ≤ cfg.decayRate)
    (nonneg : ∀ i, 0 ≤ counters i) (i : Nat) : 0 ≤ decayedCounters cfg counters i := by
  unfold decayedCounters
  split
  · exact laws.mul_nonneg _ _ (nonneg i) decay
  · exact nonneg i

def planSlot (sized : Sized cfg table) (write : SetWork w C × Lane) : CacheSlot cfg :=
  (⟨write.1.set % cfg.numSets, Nat.mod_lt _ sized.positive⟩,
   ⟨(write.1.victims write.2).2 % numWays, Nat.mod_lt _ (by decide)⟩)

def replacements (sized : Sized cfg table) : List (CacheSlot cfg × Nat) :=
  (replacePlan (groupBySet cfg table items tags (decayedCounters cfg counters))).map
    fun write => (planSlot sized write, (write.1.best write.2).2)

include sized in
omit [Mul C] in
theorem planSlot_eq (write : SetWork w C × Lane) (decayed : Nat → C)
    (isWork : IsWork cfg table items tags decayed write.1) :
    (planSlot sized write).1.val = write.1.set ∧
      (planSlot sized write).2.val = (write.1.victims write.2).2 :=
  ⟨Nat.mod_eq_of_lt isWork.bound, Nat.mod_eq_of_lt (write.1.victims_way_lt write.2)⟩

variable (laws : SetWork.CounterLaws C) (decay : 0 ≤ cfg.decayRate) (nonneg : ∀ i, 0 ≤ counters i)
  (priorities : ∀ item ∈ items, 0 ≤ item.priority)
  (kept : ∀ work ∈ groupBySet cfg table items tags (decayedCounters cfg counters),
    work.ExactLocations)

include sized in
omit [LinearOrder C] [Add C] in
theorem groupBySet_exact (few : items.length ≤ 2 ^ 24) :
    ∀ work ∈ groupBySet cfg table items tags (decayedCounters cfg counters),
      work.ExactLocations := by
  intro work member loc behind
  have isWork := groupBySet_isWork sized items tags _ work member
  exact throughFloat_of_lt (isWork.locations_small few loc (mem_of_mem_drop behind))

theorem replaceEntries_eq_replacements :
    (computeSetReplaceData cfg table items tags counters).1 =
      (replacements items tags counters sized).map fun placed =>
        insertEntry cfg table (itemAt items placed.2) placed.1 := by
  rw [replaceEntries_eq, replacements, map_map]
  apply map_congr_left
  intro write member
  have isWork := groupBySet_isWork sized items tags _ write.1 (mem_replacePlan member).1
  have slot := planSlot_eq sized items tags write _ isWork
  have bound := sized.index_lt (planSlot sized write)
  simp only [CacheSlot.index, slot.1, slot.2] at bound
  simp only [comp_apply, SetWork.entry, insertEntry, slot.1, slot.2, isWork.allItems,
    isWork.numSets,
    CacheSlot.index, sized.wrap32_width]
  rw [wrap32_of_lt (by omega), ← Nat.add_mul, Nat.add_assoc]

section Facts

include laws decay nonneg priorities kept

theorem replacements_fresh (placed : CacheSlot cfg × Nat)
    (member : placed ∈ replacements items tags counters sized) :
    placed.2 < items.length ∧ hashSetIdx (itemAt items placed.2).key cfg.numSets = placed.1.1 ∧
      findWay cfg table tags (itemAt items placed.2).key = none := by
  rcases mem_map.mp member with ⟨⟨work, x⟩, planned, rfl⟩
  have inside := mem_replacePlan planned
  have isWork := groupBySet_isWork sized items tags _ work inside.1
  have found := work.writers_location (kept work inside.1)
    (isWork.bumped_nonneg laws (decayedCounters_nonneg cfg counters laws decay nonneg) priorities) x
      inside.2
  have location := (isWork.mem_locations _).mp found.1
  refine ⟨location.1, ?_, isWork.findWay_none _ found.1 found.2⟩
  rw [location.2]
  exact (planSlot_eq sized items tags (work, x) _ isWork).1.symm

omit laws decay nonneg priorities kept in
theorem replacements_slots_nodup :
    ((replacements items tags counters sized).map Prod.fst).Nodup := by
  rw [replacements, map_map]
  have slot := fun write isWork =>
    planSlot_eq sized items tags write (decayedCounters cfg counters) isWork
  apply replacePlan_map_nodup _ (groupBySet_sets_nodup items tags _)
  · intro work member x _ y _ same
    have isWork := groupBySet_isWork sized items tags _ work member
    have ways := congrArg (fun slot : CacheSlot cfg => slot.2.val) same
    simp only [comp_apply, (slot (work, x) isWork).2, (slot (work, y) isWork).2] at ways
    exact work.victims_injective ways
  · intro first left second right x _ y _ same
    have isFirst := groupBySet_isWork sized items tags _ first left
    have isSecond := groupBySet_isWork sized items tags _ second right
    have sets := congrArg (fun slot : CacheSlot cfg => slot.1.val) same
    simp only [comp_apply, (slot (first, x) isFirst).1, (slot (second, y) isSecond).1] at sets
    exact sets

theorem replacements_locations_nodup
    (orderly : ∀ work ∈ groupBySet cfg table items tags (decayedCounters cfg counters),
      work.Orderly) :
    ((replacements items tags counters sized).map Prod.snd).Nodup := by
  rw [replacements, map_map]
  have bumped :=
    fun work (isWork : IsWork cfg table items tags (decayedCounters cfg counters) work) =>
    isWork.bumped_nonneg laws (decayedCounters_nonneg cfg counters laws decay nonneg) priorities
  apply replacePlan_map_nodup _ (groupBySet_sets_nodup items tags _)
  · intro work member x writes y others same
    have isWork := groupBySet_isWork sized items tags _ work member
    exact work.best_separated isWork.locations_nodup (orderly work member) x y
      (work.writers_positive (bumped work isWork) x writes)
        (work.writers_positive (bumped work isWork) y others) same
  · intro first left second right x writes y others same
    have isFirst := groupBySet_isWork sized items tags _ first left
    have isSecond := groupBySet_isWork sized items tags _ second right
    have one := (first.writers_location (kept first left) (bumped first isFirst) x writes).1
    have two := (second.writers_location (kept second right) (bumped second isSecond) y others).1
    rw [← ((isFirst.mem_locations _).mp one).2, ← ((isSecond.mem_locations _).mp two).2]
    simp only [comp_apply] at same
    rw [same]

include sized in
theorem writers_length_le (work : SetWork w C)
    (member : work ∈ groupBySet cfg table items tags (decayedCounters cfg counters)) :
    work.writers.length ≤ work.locations.length := by
  have isWork := groupBySet_isWork sized items tags _ work member
  have bumped :=
    isWork.bumped_nonneg laws (decayedCounters_nonneg cfg counters laws decay nonneg) priorities
  by_cases many : numWays ≤ work.locations.length
  · have lanes :=
      (length_filter_le work.needToWrite (List.finRange numWays)).trans_eq length_finRange
    exact lanes.trans many
  · have apart := work.best_separated isWork.locations_nodup (.inl (by omega))
    have nodup : (work.writers.map fun x => (work.best x).2).Nodup := by
      apply work.writers_nodup.map_on
      intro x writes y others same
      exact apart x y (work.writers_positive bumped x writes)
        (work.writers_positive bumped y others) same
    have inside : (work.writers.map fun x => (work.best x).2) ⊆ work.locations := by
      intro loc listed
      rcases mem_map.mp listed with ⟨x, writes, rfl⟩
      exact (work.writers_location (kept work member) bumped x writes).1
    have bound := (subperm_of_subset nodup inside).length_le
    rwa [length_map] at bound

include sized in
omit [LinearOrder C] [Add C] laws decay nonneg priorities kept in
theorem locations_length_le :
    ((groupBySet cfg table items tags (decayedCounters cfg counters)).flatMap locations).length ≤
      items.length := by
  have isWork := groupBySet_isWork sized items tags (decayedCounters cfg counters)
  have nodup :
      ((groupBySet cfg table items tags (decayedCounters cfg counters)).flatMap
      locations).Nodup := by
    rw [nodup_flatMap]
    refine ⟨fun work member => (isWork work member).locations_nodup, ?_⟩
    have sets : (groupBySet cfg table items tags (decayedCounters cfg counters)).Pairwise
        fun first second => first.set ≠ second.set :=
          pairwise_map.mp (groupBySet_sets_nodup items tags _)
    refine sets.imp_of_mem ?_
    intro first second left right different loc one two
    exact different ((((isWork first left).mem_locations loc).mp one).2.symm.trans
      (((isWork second right).mem_locations loc).mp two).2)
  have inside : (groupBySet cfg table items tags (decayedCounters cfg counters)).flatMap locations ⊆
      List.range items.length := by
    intro loc listed
    rcases mem_flatMap.mp listed with ⟨work, member, present⟩
    exact mem_range.mpr (((isWork work member).mem_locations loc).mp present).1
  have bound := (subperm_of_subset nodup inside).length_le
  rwa [length_range] at bound

theorem replacements_length : (replacements items tags counters sized).length ≤ items.length := by
  refine le_trans ?_ (locations_length_le sized items tags counters)
  rw [replacements, length_map, replacePlan, length_flatMap, length_flatMap]
  apply sum_le_sum
  intro work member
  rw [length_map]
  exact writers_length_le sized items tags counters laws decay nonneg priorities kept work member

include sized in
omit kept in
theorem replaceCounters_nonneg (i : Nat) :
    0 ≤ (computeSetReplaceData cfg table items tags counters).2 i := by
  have decayed := decayedCounters_nonneg cfg counters laws decay nonneg
  simp only [computeSetReplaceData]
  split
  · rename_i work found
    have isWork := groupBySet_isWork sized items tags _ work (mem_of_find?_eq_some found)
    exact work.finalCounters_nonneg (isWork.bumped_nonneg laws decayed priorities) _
  · exact decayed i

end Facts

end Replace

section UpdateData

omit [Zero C]

variable {cfg : CacheConfig w C} {table : Nat} (sized : Sized cfg table)

def Rebuilds (cfg : CacheConfig w C) (table : Nat) (tags : Tags w) (key : BitVec w) (way : Nat) :
    Prop :=
  constructKey (tags (tableBase cfg table + hashSetIdx key cfg.numSets * numWays + way))
    (hashSetIdx key cfg.numSets) cfg.numSets = key

instance (tags : Tags w) (key : BitVec w) (way : Nat) :
    Decidable (Rebuilds cfg table tags key way) :=
  inferInstanceAs (Decidable (_ = _))

include sized

theorem setUpdateDataKernel_eq_map (keys : List (BitVec w)) (tags : Tags w)
    (makeEntry : BitVec w → Nat → Nat → ModifyEntry w) :
    setUpdateDataKernel cfg table keys tags makeEntry =
      ((keys.zipIdx ×ˢ List.range numWays).filter fun hit =>
        Rebuilds cfg table tags hit.1.1 hit.2).map
        fun hit => makeEntry hit.1.1 hit.1.2 hit.2 := by
  change _ = (List.filter _ (List.product _ _)).map _
  rw [setUpdateDataKernel, List.product, filter_flatMap, map_flatMap]
  apply flatMap_congr
  intro hit _
  simp only [sized.wrap32_numSets, sized.wrap32_offset, filter_map, map_map]
  rw [← filterMap_eq_map, filterMap_filter]
  apply filterMap_congr
  intro way _
  by_cases rebuilt : Rebuilds cfg table tags hit.1 way
  · simp only [comp_apply, rebuilt, decide_true, if_true]
    exact if_pos rebuilt
  · simp only [comp_apply, rebuilt, decide_false, Bool.false_eq_true, if_false]
    exact if_neg rebuilt

theorem mem_setUpdateDataKernel {keys : List (BitVec w)} {tags : Tags w}
    {makeEntry : BitVec w → Nat → Nat → ModifyEntry w} {entry : ModifyEntry w} :
    entry ∈ setUpdateDataKernel cfg table keys tags makeEntry ↔
      ∃ hit ∈ keys.zipIdx, ∃ way < numWays, Rebuilds cfg table tags hit.1 way ∧
        makeEntry hit.1 hit.2 way = entry := by
  rw [setUpdateDataKernel_eq_map sized]
  simp only [mem_map, mem_filter, mem_product, mem_range, decide_eq_true_eq, Prod.exists]
  constructor
  · intro ⟨key, i, way, ⟨⟨member, bound⟩, rebuilt⟩, made⟩
    exact ⟨key, i, member, way, bound, rebuilt, made⟩
  · intro ⟨key, i, member, way, bound, rebuilt, made⟩
    exact ⟨key, i, way, ⟨⟨member, bound⟩, rebuilt⟩, made⟩

theorem setUpdateDataKernel_nodup {keys : List (BitVec w)} (nodup : keys.Nodup) (tags : Tags w)
    (makeEntry : BitVec w → Nat → Nat → ModifyEntry w)
    (place : ∀ key i way, way < numWays → (makeEntry key i way).slot (tableBase cfg table) =
      tableBase cfg table + hashSetIdx key cfg.numSets * numWays + way) :
    ((setUpdateDataKernel cfg table keys tags makeEntry).map
      (ModifyEntry.slot (tableBase cfg table))).Nodup := by
  have hits : keys.zipIdx.Nodup := by
    apply List.Nodup.of_map Prod.fst
    rw [zipIdx_map_fst]
    exact nodup
  rw [setUpdateDataKernel_eq_map sized, map_map]
  apply ((hits.product nodup_range).filter _).map_on
  intro first left second right same
  rw [mem_filter, mem_product, mem_range, decide_eq_true_eq] at left right
  have slots := same
  simp only [comp_apply, place _ _ _ left.1.2, place _ _ _ right.1.2] at slots
  have index : hashSetIdx first.1.1 cfg.numSets = hashSetIdx second.1.1 cfg.numSets ∧
      first.2 = second.2 := by
    have one := left.1.2
    have two := right.1.2
    simp only [numWays] at one two slots
    omega
  have keysEqual : first.1.1 = second.1.1 := by
    have rebuilt := left.2
    rw [Rebuilds, slots, index.1] at rebuilt
    exact rebuilt.symm.trans right.2
  have position : first.1.2 = second.1.2 := by
    have one := mem_zipIdx_iff_getElem?.mp left.1.1
    have two := mem_zipIdx_iff_getElem?.mp right.1.1
    rw [keysEqual, ← two] at one
    exact (List.getElem?_inj (List.getElem?_eq_some_iff.mp (one.trans two)).1 nodup).mp one
  exact Prod.ext (Prod.ext keysEqual position) index.2

end UpdateData

section Update

omit [Zero C]

private theorem filter_eq_find_toList {α : Type*} (test : α → Bool) (list : List α)
    (nodup : list.Nodup)
    (unique : ∀ a ∈ list, ∀ b ∈ list, test a = true → test b = true → a = b) :
    list.filter test = (list.find? test).toList := by
  induction list with
  | nil => rfl
  | cons head rest ih =>
    rw [nodup_cons] at nodup
    by_cases holds : test head = true
    · have others : rest.filter test = [] := by
        rw [filter_eq_nil_iff]
        intro b member second
        have same := unique head mem_cons_self b (mem_cons_of_mem _ member) holds second
        exact nodup.1 (same ▸ member)
      simp [holds, others]
    · rw [filter_cons_of_neg holds, List.find?_cons_of_neg holds]
      exact ih nodup.2 fun a left b right =>
        unique a (mem_cons_of_mem _ left) b (mem_cons_of_mem _ right)

def OneWay (cfg : CacheConfig w C) (table : Nat) (tags : Tags w) (key : BitVec w) : Prop :=
  ∀ way < numWays, ∀ other < numWays, Rebuilds cfg table tags key way →
    Rebuilds cfg table tags key other → way = other

variable {cfg : CacheConfig w C} {table : Nat} (sized : Sized cfg table)

include sized

/-- The kernel lists one entry for each key the way search finds, if no key has two ways. -/
theorem setUpdateDataKernel_eq_of_oneWay (keys : List (BitVec w)) (tags : Tags w)
    (single : ∀ key ∈ keys, OneWay cfg table tags key)
    (makeEntry : BitVec w → Nat → Nat → ModifyEntry w) :
    setUpdateDataKernel cfg table keys tags makeEntry =
      keys.zipIdx.filterMap fun hit => (findWay cfg table tags hit.1).map fun j =>
        makeEntry hit.1 hit.2 j := by
  rw [setUpdateDataKernel, filterMap_eq_flatMap_toList]
  apply flatMap_congr
  intro hit member
  have present : hit.1 ∈ keys := mem_of_getElem? (mem_zipIdx_iff_getElem?.mp member)
  have offset := sized.wrap32_offset hit.1
  have found := filter_eq_find_toList
    (fun j => constructKey (tags (tableBase cfg table + hashSetIdx hit.1 cfg.numSets * numWays + j))
      (hashSetIdx hit.1 cfg.numSets) cfg.numSets == hit.1) (List.range numWays) nodup_range (by
        intro a left b right first second
        exact single _ present a (mem_range.mp left) b (mem_range.mp right) (beq_iff_eq.mp first)
          (beq_iff_eq.mp second))
  simp only [sized.wrap32_numSets, offset]
  have pulled : ∀ (list : List Nat) (test : Nat → Prop) [DecidablePred test]
      (make : Nat → ModifyEntry w),
      (list.filterMap fun j => if test j then some (make j) else none) =
        (list.filter fun j => test j).map make := by
    intro list test _ make
    induction list with
    | nil => rfl
    | cons head rest ih => by_cases holds : test head <;> simp [holds, ih]
  rw [pulled]
  simp only [← beq_iff_eq (α := BitVec w), Bool.decide_eq_true]
  rw [found]
  simp only [findWay, searchWays, Option.toList_map]

/-- For distinct resident keys the kernel lists one entry for each key the way search finds. -/
theorem setUpdateDataKernel_eq (marker : cfg.sentinelKey = -1) (keys : List (BitVec w))
    (tags : Tags w) (memory : Memory)
    (distinct : (view cfg table tags memory).Distinct) (nonnegative : ∀ key ∈ keys, NonNegative key)
    (makeEntry : BitVec w → Nat → Nat → ModifyEntry w) :
    setUpdateDataKernel cfg table keys tags makeEntry =
      keys.zipIdx.filterMap fun hit => (findWay cfg table tags hit.1).map fun j =>
        makeEntry hit.1 hit.2 j := by
  apply setUpdateDataKernel_eq_of_oneWay sized
  intro key present way bound other inside first second
  have one :=
    (construct_match_iff sized marker tags key (nonnegative _ present) ⟨way, bound⟩).mp first
  have two :=
    (construct_match_iff sized marker tags key (nonnegative _ present) ⟨other, inside⟩).mp second
  exact congrArg (fun slot : CacheSlot cfg => slot.2.val) (distinct _ _ _ one two)

end Update

end EmbedCache.CacheSADeviceModify
