import EmbedCache.Cache

/-! Which key a slot holds, and the tag array as a keyed store.

A slot whose tag is the empty marker holds nothing. Every other tag must be the
tag of a non-negative key of the slot's own set; under that invariant the way
search of the source finds exactly the held keys. -/

namespace EmbedCache

open Lib Function
open CacheSlot (index_injective ofKey)

variable {w : Nat} {C : Type*} (cfg : CacheConfig w C)

def heldKey (table : Nat) (tags : Tags w) (slot : CacheSlot cfg) :
    Option (BitVec w) :=
  if tags (slot.index table) = cfg.sentinelKey then none
  else some (constructKey (tags (slot.index table)) slot.1 cfg.numSets)

def view (table : Nat) (tags : Tags w) (memory : Memory) :
    KeyedSlots (CacheSlot cfg) (BitVec w) Row where
  held := heldKey cfg table tags
  row slot := rowAt memory cfg.embedWidthInBytes (slot.index table)

/-- Every tag in use belongs to a non-negative key that hashes to its set. -/
def WellPlaced (table : Nat) (tags : Tags w) : Prop :=
  ∀ slot : CacheSlot cfg, tags (slot.index table) ≠ cfg.sentinelKey →
    ∃ key, NonNegative key ∧ hashSetIdx key cfg.numSets = slot.1 ∧
      tags (slot.index table) = constructTag key cfg.numSets

section

variable {cfg : CacheConfig w C} {table : Nat} (sized : Sized cfg table)
  (marker : cfg.sentinelKey = -1)

include sized

variable (tags : Tags w)

theorem heldKey_of_constructTag (slot : CacheSlot cfg) (key : BitVec w)
    (nonempty : tags (slot.index table) ≠ cfg.sentinelKey)
    (set : hashSetIdx key cfg.numSets = slot.1)
    (tag : tags (slot.index table) = constructTag key cfg.numSets) :
    heldKey cfg table tags slot = some key := by
  rw [heldKey, if_neg nonempty, tag, ← set,
    constructKey_constructTag_hash key cfg.numSets sized.sets_fit sized.positive]

section

variable {tags : Tags w} (placed : WellPlaced cfg table tags) {slot : CacheSlot cfg}
  {key : BitVec w} (held : heldKey cfg table tags slot = some key)

include placed held

theorem WellPlaced.of_held :
    NonNegative key ∧ hashSetIdx key cfg.numSets = slot.1 ∧
      tags (slot.index table) = constructTag key cfg.numSets := by
  by_cases empty : tags (slot.index table) = cfg.sentinelKey
  · rw [heldKey, if_pos empty] at held
    exact absurd held (by simp)
  · obtain ⟨found, nonnegative, set, tag⟩ := placed slot empty
    have same : found = key :=
      Option.some.inj
        ((heldKey_of_constructTag sized tags slot found empty set tag).symm.trans held)
    subst same
    exact ⟨nonnegative, set, tag⟩

theorem WellPlaced.slot_eq :
    slot = ofKey sized key slot.2 :=
  Prod.ext (Fin.ext (placed.of_held sized held).2.1.symm) rfl

end

include marker

theorem construct_match_iff (key : BitVec w) (nonnegative : NonNegative key) (way : Fin numWays) :
    constructKey (tags ((ofKey sized key way).index table)) (hashSetIdx key cfg.numSets)
        cfg.numSets = key ↔
      heldKey cfg table tags (ofKey sized key way) = some key := by
  rw [heldKey]
  split
  · rename_i empty
    rw [empty, marker]
    have never :=
      emptyMarker_not_nonNegative key cfg.numSets sized.positive sized.sets_fit
        sized.room nonnegative
    simp only [never, reduceCtorEq]
  · rw [Option.some_inj]
    rfl

theorem held_of_findWay (key : BitVec w) (nonnegative : NonNegative key) (way : Nat)
    (found : findWay cfg table tags key = some way) :
    ∃ bound : way < numWays, heldKey cfg table tags (ofKey sized key ⟨way, bound⟩) = some key := by
  simp only [findWay, searchWays] at found
  have bound : way < numWays := List.mem_range.mp (List.mem_of_find?_eq_some found)
  have hit := List.find?_some found
  exact ⟨bound, (construct_match_iff sized marker tags key nonnegative ⟨way, bound⟩).mp
    (beq_iff_eq.mp hit)⟩

theorem findWay_eq_none_iff (placed : WellPlaced cfg table tags) (key : BitVec w)
    (nonnegative : NonNegative key) :
    findWay cfg table tags key = none ↔ ∀ slot, heldKey cfg table tags slot ≠ some key := by
  simp only [findWay, searchWays, List.find?_eq_none, List.mem_range, beq_iff_eq]
  constructor
  · intro none slot held
    have place := placed.slot_eq sized held
    rw [place] at held
    exact none slot.2 slot.2.isLt
      ((construct_match_iff sized marker tags key nonnegative slot.2).mpr held)
  · intro none way bound hit
    exact none _ ((construct_match_iff sized marker tags key nonnegative ⟨way, bound⟩).mp hit)

variable (placed : WellPlaced cfg table tags) (memory : Memory)
  (distinct : (view cfg table tags memory).Distinct) (key : BitVec w)

include placed memory distinct key in
theorem findWay_of_held (slot : CacheSlot cfg)
    (held : heldKey cfg table tags slot = some key) :
      findWay cfg table tags key = some slot.2.val := by
  have nonnegative := (placed.of_held sized held).1
  cases found : findWay cfg table tags key with
  | none =>
    exact absurd held ((findWay_eq_none_iff sized marker tags placed key nonnegative).mp found slot)
  | some way =>
    obtain ⟨bound, other⟩ := held_of_findWay sized marker tags key nonnegative way found
    have same := distinct _ slot key other held
    rw [← same]
    rfl

include placed memory distinct key in
theorem lookup_eq_toMap (nonnegative : NonNegative key) :
    lookup cfg table tags memory key = (view cfg table tags memory).toMap key := by
  rw [lookup, queryAddress, sized.wayOfMask_eq]
  cases found : findWay cfg table tags key with
  | none =>
    have absent : ¬ (view cfg table tags memory).Resident key := by
      rintro ⟨slot, held⟩
      exact (findWay_eq_none_iff sized marker tags placed key nonnegative).mp found slot held
    rw [KeyedSlots.toMap_of_not_resident _ key absent]
    rfl
  | some way =>
    obtain ⟨bound, held⟩ := held_of_findWay sized marker tags key nonnegative way found
    rw [KeyedSlots.toMap_of_held _ distinct _ key held]
    have small : table * cfg.numSets * numWays + hashSetIdx key cfg.numSets * numWays +
        way < 2 ^ 32 :=
      sized.index_lt (ofKey sized key ⟨way, bound⟩)
    simp only [Option.map_some, sized.wrap32_numSets, wrap32_of_lt small]
    rfl

end

section Changes

variable {cfg : CacheConfig w C} {table : Nat}

theorem heldKey_congr {first second : Tags w} {slot : CacheSlot cfg}
    (same : first (slot.index table) = second (slot.index table)) :
    heldKey cfg table first slot = heldKey cfg table second slot := by
  simp only [heldKey, same]

theorem heldKey_of_cleared {before after : Tags w}
    (shrinks : ∀ slot : CacheSlot cfg, after (slot.index table) = cfg.sentinelKey ∨
      after (slot.index table) = before (slot.index table)) {slot : CacheSlot cfg} {key : BitVec w}
    (held : heldKey cfg table after slot = some key) :
      heldKey cfg table before slot = some key := by
  rcases shrinks slot with empty | same
  · rw [heldKey, if_pos empty] at held
    exact absurd held (by simp)
  · exact (heldKey_congr same) ▸ held

theorem WellPlaced.shrink {before after : Tags w} (placed : WellPlaced cfg table before)
    (shrinks : ∀ slot : CacheSlot cfg, after (slot.index table) = cfg.sentinelKey ∨
      after (slot.index table) = before (slot.index table)) : WellPlaced cfg table after := by
  intro slot nonempty
  rcases shrinks slot with empty | same
  · exact absurd empty nonempty
  · rw [same] at nonempty ⊢
    exact placed slot nonempty

variable (sized : Sized cfg table) (marker : cfg.sentinelKey = -1)

include sized marker

theorem heldKey_constructTag (tags : Tags w) (slot : CacheSlot cfg) (key : BitVec w)
    (nonnegative : NonNegative key) (set : hashSetIdx key cfg.numSets = slot.1)
    (tag : tags (slot.index table) = constructTag key cfg.numSets) :
    heldKey cfg table tags slot = some key := by
  have wide := sized.wide
  have nonempty : tags (slot.index table) ≠ cfg.sentinelKey := by
    rw [tag, marker]
    exact constructTag_ne_emptyMarker key cfg.numSets (by omega) nonnegative
  exact heldKey_of_constructTag sized tags slot key nonempty set tag

theorem wellPlaced_update (tags : Tags w) (memory : Memory) (placed : WellPlaced cfg table tags)
    (distinct : (view cfg table tags memory).Distinct) (key : BitVec w)
    (nonnegative : NonNegative key)
    (missing : findWay cfg table tags key = none) (way : Fin numWays) :
    WellPlaced cfg table (update tags ((ofKey sized key way).index table)
        (constructTag key cfg.numSets)) ∧
      (view cfg table (update tags ((ofKey sized key way).index table)
        (constructTag key cfg.numSets)) memory).Distinct := by
  have other : ∀ slot : CacheSlot cfg, slot ≠ ofKey sized key way →
      update tags ((ofKey sized key way).index table)
        (constructTag key cfg.numSets) (slot.index table) = tags (slot.index table) := by
    intro slot apart
    exact update_of_ne (fun same => apart (index_injective same)) _ _
  constructor
  · intro slot nonempty
    by_cases here : slot = ofKey sized key way
    · subst here
      exact ⟨key, nonnegative, rfl, update_self _ _ _⟩
    · rw [other slot here] at nonempty ⊢
      exact placed slot nonempty
  · have absent := (findWay_eq_none_iff sized marker tags placed key nonnegative).mp missing
    apply distinct.replace (ofKey sized key way) key
    · rintro ⟨slot, held⟩
      exact absent slot held
    · exact heldKey_constructTag sized marker _ _ key nonnegative rfl (update_self _ _ _)
    · intro slot apart
      exact heldKey_congr (other slot apart)

end Changes

end EmbedCache
