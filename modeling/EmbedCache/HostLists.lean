import EmbedCache.HostModify
import EmbedCache.EntryLists

/-! What the list-building loops of `CacheSAHostModify` produce, and what a successful
`modify` does with the list.

Nothing here depends on the choice of the empty marker or on which keys are used. -/

namespace EmbedCache

open Lib List Function
open CacheSlot (index ofKey)

variable {w : Nat} {C : Type*}

namespace CacheSAHostModify

section Modify

variable {cfg : CacheConfig w C} {table : Nat} {arithmetic : RowArithmetic} {outcome : Outcome}
  {request : ModifyRequest}
  {entries : List (ModifyEntry w)} {state after : HostState w C}
  (result : modify cfg arithmetic outcome request table entries state = (.success, after))

include result

theorem modify_kernels (writes : request.op ≠ .invalidate) : after =
    { state with
      dTags := callTagUpdateKernel entries entries.length (tableBase cfg table)
        (callTagInvalidateKernel entries entries.length (tableBase cfg table) cfg.sentinelKey
          state.dTags)
      cache := ((memUpdateStep cfg arithmetic request entries).effect state).cache } := by
  unfold modify at result
  split at result
  · rename_i empty
    rw [length_eq_zero_iff] at empty
    subst empty
    cases result
    cases op : request.op <;> simp [memUpdateStep, op] <;> rfl
  · rw [applySteps_of_ok _ _ _ result]
    cases op : request.op with
    | invalidate => exact absurd op writes
    | replace | update | updateAccumulate => simp [modifySteps, memUpdateStep, op]

theorem modify_copied (sized : Sized cfg table)
    (copies : request.op = .replace ∨ request.op = .update) : after =
    { state with
      dTags := tagUpdateKernel entries (tableBase cfg table)
        (invalidateTagKernel entries (tableBase cfg table) cfg.sentinelKey state.dTags)
      cache := applyWrites state.cache
        (entries.map fun entry => ⟨entry.dst, cfg.embedWidthInBytes, entry.src⟩) } := by
  have whole := take_of_length_le (le_launched32 entries.length)
  rw [modify_kernels result (by rcases copies with op | op <;> simp [op])]
  rcases copies with op | op <;>
    simp [memUpdateStep, op, callTagInvalidateKernel, callTagUpdateKernel, whole,
      callMemUpdateKernel_eq, sized.wrap32_width]

theorem modify_invalidated (op : request.op = .invalidate) :
    after = { state with
      dTags := invalidateTagKernel entries (tableBase cfg table) cfg.sentinelKey state.dTags } := by
  unfold modify at result
  split at result
  · rename_i empty
    rw [length_eq_zero_iff] at empty
    subst empty
    cases result
    rfl
  · have whole := take_of_length_le (le_launched32 entries.length)
    rw [applySteps_of_ok _ _ _ result]
    simp [modifySteps, op, callTagInvalidateKernel, whole]

theorem modify_published (publishes : request.op ≠ .invalidate) :
    after.dTags = tagUpdateKernel entries (tableBase cfg table)
      (invalidateTagKernel entries (tableBase cfg table) cfg.sentinelKey state.dTags) ∧
        after.hTags = state.hTags := by
  have whole := take_of_length_le (le_launched32 entries.length)
  rw [modify_kernels result publishes]
  simp [callTagInvalidateKernel, callTagUpdateKernel, whole]

end Modify

section Insert

variable [LT C] [DecidableLT C]

theorem minElement_lt (counters : Nat → C) (base : Nat) : minElement counters base < numWays := by
  have general : ∀ (ways : List Nat) (best : Nat), (∀ j ∈ ways, j < numWays) → best < numWays →
      ways.foldl (fun best j => if counters (base + j) < counters (base + best) then j else best)
        best < numWays := by
    intro ways
    induction ways with
    | nil => intro best _ bound; exact bound
    | cons j rest ih =>
      intro best inside bound
      apply ih _ (fun other member => inside other (mem_cons_of_mem _ member))
      dsimp only
      split
      · exact inside j mem_cons_self
      · exact bound
  exact general _ 0 (fun j member => mem_range.mp member) (by simp [numWays])

variable [Add C] {cfg : CacheConfig w C} {table : Nat}

theorem insertKey_cases (sized : Sized cfg table)
    (scan : InsertScan w C) (item : InsertItem w C) :
    ((insertKey cfg table scan item).tags = scan.tags ∧
      (insertKey cfg table scan item).insertMap = scan.insertMap) ∨
    ∃ way : Fin numWays,
      findWay cfg table scan.tags item.key = none ∧
      (∀ placed ∈ scan.insertMap,
        tableBase cfg table + placed.1 ≠ (ofKey sized item.key way).index table) ∧
      (insertKey cfg table scan item).tags = Function.update scan.tags
        ((ofKey sized item.key way).index table) (constructTag item.key cfg.numSets) ∧
      (insertKey cfg table scan item).insertMap = scan.insertMap ++
        [(hashSetIdx item.key cfg.numSets * numWays + way,
          insertEntry cfg table item (ofKey sized item.key way))] := by
  have bound :=
    minElement_lt scan.counters (tableBase cfg table + hashSetIdx item.key cfg.numSets * numWays)
  unfold insertKey
  dsimp only
  split
  · exact .inl ⟨rfl, rfl⟩
  · rename_i missing
    split_ifs with reject taken
    · exact .inl ⟨rfl, rfl⟩
    · exact .inl ⟨rfl, rfl⟩
    · refine .inr ⟨⟨_, bound⟩, missing, ?_, rfl, ?_⟩
      · intro placed member same
        apply taken
        refine any_eq_true.mpr ⟨placed, member, ?_⟩
        simp only [index, ofKey] at same
        simp only [decide_eq_true_eq]
        omega
      · simp only [insertEntry, index, ofKey, ← Nat.add_mul, Nat.add_assoc]

/-- The relation between the tags before `insert`, the tags it leaves, and its insert map. -/
structure InsertListed (cfg : CacheConfig w C) (table : Nat) (items : List (InsertItem w C))
    (before : Tags w)
    (scan : InsertScan w C) : Prop where
  frame : ∀ i, (∀ placed ∈ scan.insertMap, tableBase cfg table + placed.1 ≠ i) →
    scan.tags i = before i
  entry : ∀ placed ∈ scan.insertMap, ∃ slot : CacheSlot cfg, ∃ item ∈ items,
    tableBase cfg table + placed.1 = slot.index table ∧
    hashSetIdx item.key cfg.numSets = slot.1 ∧
    placed.2 = insertEntry cfg table item slot ∧
    scan.tags (slot.index table) = constructTag item.key cfg.numSets ∧
    constructKey (before (slot.index table)) slot.1 cfg.numSets ≠ item.key
  nodup : (scan.insertMap.map Prod.fst).Nodup

variable {items : List (InsertItem w C)}

theorem InsertListed.step (sized : Sized cfg table) {before : Tags w} {scan : InsertScan w C}
    (listed : InsertListed cfg table items before scan) (item : InsertItem w C)
    (member : item ∈ items) :
    InsertListed cfg table items before (insertKey cfg table scan item) := by
  rcases insertKey_cases sized scan item with ⟨tags, map⟩ | ⟨way, missing, free, tags, map⟩
  · refine ⟨?_, ?_, ?_⟩ <;> rw [map]
    · rw [tags]; exact listed.frame
    · rw [tags]; exact listed.entry
    · exact listed.nodup
  · have own : tableBase cfg table + (hashSetIdx item.key cfg.numSets * numWays + way) =
        (ofKey sized item.key way).index table := by
      simp only [index, ofKey, Nat.add_assoc]
    refine ⟨?_, ?_, ?_⟩
    · intro i absent
      rw [map] at absent
      have here := absent _ (mem_append_right _ (mem_singleton.mpr rfl))
      rw [own] at here
      rw [tags, update_of_ne here.symm]
      exact listed.frame i fun placed old => absent placed (mem_append_left _ old)
    · intro placed inside
      rw [map] at inside
      rcases mem_append.mp inside with old | new
      · obtain ⟨slot, source, present, place, set, entry, tag, fresh⟩ := listed.entry placed old
        refine ⟨slot, source, present, place, set, entry, ?_, fresh⟩
        have apart := free placed old
        rw [place] at apart
        rw [tags, update_of_ne apart]
        exact tag
      · rw [mem_singleton.mp new]
        refine ⟨ofKey sized item.key way, item, member, own, rfl, rfl, ?_, ?_⟩
        · rw [tags, update_self]
        · rw [← listed.frame _ free]
          simp only [findWay, searchWays, List.find?_eq_none, mem_range, beq_iff_eq] at missing
          exact missing way way.isLt
    · rw [map, map_append, nodup_append]
      refine ⟨listed.nodup, by simp, ?_⟩
      intro first old second new same
      obtain ⟨placed, inside, rfl⟩ := mem_map.mp old
      simp only [map_cons, map_nil, mem_singleton] at new
      apply free placed inside
      rw [same, new, own]

theorem InsertListed.run (sized : Sized cfg table) (maxUpdateSz : Nat) {before : Tags w}
    (rest : List (InsertItem w C))
    (scan : InsertScan w C) (listed : InsertListed cfg table items before scan)
    (inside : ∀ item ∈ rest, item ∈ items) :
    InsertListed cfg table items before (insertScan cfg table maxUpdateSz rest scan) := by
  induction rest generalizing scan with
  | nil => exact listed
  | cons item rest ih =>
    unfold insertScan
    split
    · exact ih _ (listed.step sized item (inside item mem_cons_self))
        (fun other member => inside other (mem_cons_of_mem _ member))
    · exact listed

theorem insertScan_listed (sized : Sized cfg table) (maxUpdateSz : Nat)
    (items : List (InsertItem w C)) (before : Tags w) (counters : Nat → C) :
    InsertListed cfg table items before
      (insertScan cfg table maxUpdateSz items ⟨before, counters, []⟩) :=
  InsertListed.run sized maxUpdateSz items _ ⟨fun _ _ => rfl, by simp, by simp⟩
    (fun _ member => member)

section Entries

variable {cfg : CacheConfig w C} {table : Nat} {items : List (InsertItem w C)} {before : Tags w}
  {scan : InsertScan w C} (sized : Sized cfg table)
  (listed : InsertListed cfg table items before scan)
  (order : MapOrder w)

omit [LT C] [DecidableLT C] [Add C]

include sized listed

private theorem placed_slot (placed : Nat × ModifyEntry w) (member : placed ∈ scan.insertMap) :
    placed.2.slot (tableBase cfg table) = tableBase cfg table + placed.1 := by
  obtain ⟨slot, item, _, place, _, entry, _, _⟩ := listed.entry placed member
  rw [place, entry, (insertEntry_names table item slot).slot_eq sized]

omit sized in
theorem InsertListed.mem_entries (entry : ModifyEntry w)
    (member : entry ∈ (order.iterate scan.insertMap).map Prod.snd) :
    ∃ slot : CacheSlot cfg, ∃ item ∈ items, entry = insertEntry cfg table item slot ∧
      hashSetIdx item.key cfg.numSets = slot.1 ∧
      scan.tags (slot.index table) = constructTag item.key cfg.numSets ∧
      constructKey (before (slot.index table)) slot.1 cfg.numSets ≠ item.key := by
  obtain ⟨placed, inside, rfl⟩ := mem_map.mp member
  obtain ⟨slot, item, present, _, set, same, tag, fresh⟩ :=
    listed.entry placed ((order.perm _).mem_iff.mp inside)
  exact ⟨slot, item, present, same, set, tag, fresh⟩

theorem InsertListed.entries_nodup :
    (((order.iterate scan.insertMap).map Prod.snd).map
      (ModifyEntry.slot (tableBase cfg table))).Nodup := by
  have slots : (scan.insertMap.map fun placed => placed.2.slot (tableBase cfg table)) =
      (scan.insertMap.map Prod.fst).map fun offset => tableBase cfg table + offset := by
    rw [map_map]
    exact map_congr_left fun placed member => placed_slot sized listed placed member
  rw [map_map, List.Perm.nodup_iff ((order.perm scan.insertMap).map _)]
  change (scan.insertMap.map fun placed => placed.2.slot (tableBase cfg table)).Nodup
  rw [slots]
  exact listed.nodup.map (fun first second same => Nat.add_left_cancel same)

theorem InsertListed.entries_frame (i : Nat)
    (absent : ∀ entry ∈ (order.iterate scan.insertMap).map Prod.snd,
      entry.slot (tableBase cfg table) ≠ i) :
    scan.tags i = before i := by
  apply listed.frame
  intro placed member
  rw [← placed_slot sized listed placed member]
  exact absent placed.2 (mem_map.mpr ⟨placed, (order.perm _).mem_iff.mpr member, rfl⟩)

theorem InsertListed.entries_dst (entry : ModifyEntry w)
    (member : entry ∈ (order.iterate scan.insertMap).map Prod.snd) :
    entry.dst = entry.slot (tableBase cfg table) * cfg.embedWidthInBytes := by
  obtain ⟨slot, item, _, rfl, _⟩ := listed.mem_entries order entry member
  rw [(insertEntry_names table item slot).slot_eq sized]
  rfl

theorem InsertListed.republished :
    tagUpdateKernel ((order.iterate scan.insertMap).map Prod.snd) (tableBase cfg table)
      (invalidateTagKernel ((order.iterate scan.insertMap).map Prod.snd) (tableBase cfg table)
        cfg.sentinelKey before) = scan.tags := by
  funext i
  by_cases named : ∃ entry ∈ (order.iterate scan.insertMap).map Prod.snd,
    entry.slot (tableBase cfg table) = i
  · obtain ⟨entry, member, rfl⟩ := named
    rw [tagUpdateKernel_present _ _ _ entry member]
    · obtain ⟨slot, item, _, rfl, _, tag, _⟩ := listed.mem_entries order entry member
      rw [(insertEntry_names table item slot).slot_eq sized, tag]
      rfl
    · intro other inside same
      rw [entry_eq_of_slot (listed.entries_nodup sized order) inside member same]
  · have absent : ∀ entry ∈ (order.iterate scan.insertMap).map Prod.snd,
        entry.slot (tableBase cfg table) ≠ i := fun entry member same => named ⟨entry, member, same⟩
    rw [tags_republished_absent _ _ _ _ _ absent, listed.entries_frame sized order i absent]

end Entries

end Insert

section Invalidate

variable {cfg : CacheConfig w C} {table : Nat}

def probeSlot (cfg : CacheConfig w C) (table : Nat) (probe : BitVec w × Nat) : Nat :=
  tableBase cfg table + hashSetIdx probe.1 cfg.numSets * numWays + probe.2

/-- The comparisons of `invalidate` in loop order. -/
def probes (keys : List (BitVec w)) : List (BitVec w × Nat) :=
  keys.flatMap fun key => (List.range numWays).map fun j => (key, j)

theorem mem_probes (keys : List (BitVec w)) (key : BitVec w) (j : Nat) :
    (key, j) ∈ probes keys ↔ key ∈ keys ∧ j < numWays := by
  simp only [probes, mem_flatMap, mem_map, mem_range, Prod.mk.injEq]
  constructor
  · rintro ⟨_, member, _, bound, rfl, rfl⟩
    exact ⟨member, bound⟩
  · rintro ⟨member, bound⟩
    exact ⟨key, member, j, bound, rfl, rfl⟩

theorem invalidateScan_eq (keys : List (BitVec w)) (tags : Tags w) :
    invalidateScan cfg table keys tags =
      (probes keys).foldl (fun scan probe => invalidateWay cfg table probe.1 scan probe.2)
        (tags, []) := by
  simp only [invalidateScan, probes, foldl_flatMap, foldl_map]

/-- The relation between the tags before `invalidate`, the comparisons made so far, and the
tags and list they leave. -/
structure InvalidateListed (cfg : CacheConfig w C) (table : Nat) (before : Tags w)
    (made : List (BitVec w × Nat)) (scan : Tags w × List (ModifyEntry w)) : Prop where
  frame : ∀ i, (∀ entry ∈ scan.2, entry.slot (tableBase cfg table) ≠ i) → scan.1 i = before i
  cleared : ∀ entry ∈ scan.2, scan.1 (entry.slot (tableBase cfg table)) = cfg.sentinelKey
  names : ∀ entry ∈ scan.2, ∃ slot : CacheSlot cfg, entry.Names slot
  gone : ∀ probe ∈ made, scan.1 (probeSlot cfg table probe) = cfg.sentinelKey ∨
    constructKey (scan.1 (probeSlot cfg table probe))
      (hashSetIdx probe.1 cfg.numSets) cfg.numSets ≠ probe.1

variable (sized : Sized cfg table)

include sized

variable {before : Tags w} {scan : Tags w × List (ModifyEntry w)} {made : List (BitVec w × Nat)}

variable (listed : InvalidateListed cfg table before made scan)

include listed in
theorem InvalidateListed.step
   
    (probe : BitVec w × Nat) (bound : probe.2 < numWays) :
    InvalidateListed cfg table before (made ++ [probe])
      (invalidateWay cfg table probe.1 scan probe.2) := by
  have hash := sized.hash_lt probe.1
  have total := sized.base_add_sets
  have slot : tableBase cfg table + wrap32 (hashSetIdx probe.1 cfg.numSets * numWays) + probe.2 =
      probeSlot cfg table probe := by
    rw [wrap32_of_lt, probeSlot]
    simp only [numWays] at total ⊢
    omega
  unfold invalidateWay
  simp only [slot]
  split_ifs with hit
  · let entry : ModifyEntry w :=
      ⟨fun _ => 0, 0, hashSetIdx probe.1 cfg.numSets, probe.2, cfg.sentinelKey⟩
    have names : entry.Names (ofKey sized probe.1 ⟨probe.2, bound⟩) := ⟨rfl, rfl⟩
    have own : entry.slot (tableBase cfg table) = probeSlot cfg table probe := names.slot_eq sized
    have only : ∀ i, Function.update scan.1 (probeSlot cfg table probe) cfg.sentinelKey i =
        cfg.sentinelKey ∨
        Function.update scan.1 (probeSlot cfg table probe) cfg.sentinelKey i = scan.1 i := by
      intro i
      by_cases here : i = probeSlot cfg table probe
      · rw [here, update_self]; exact .inl rfl
      · rw [update_of_ne here]; exact .inr rfl
    refine ⟨?_, ?_, ?_, ?_⟩
    · intro i absent
      have here := absent entry (mem_append_right _ (mem_singleton.mpr rfl))
      rw [own] at here
      simp only [update_of_ne here.symm]
      exact listed.frame i fun other old => absent other (mem_append_left _ old)
    · intro other inside
      rcases mem_append.mp inside with old | new
      · rcases only (other.slot (tableBase cfg table)) with empty | same
        · exact empty
        · exact same.trans (listed.cleared other old)
      · rw [mem_singleton.mp new]
        change Function.update scan.1 _ _ (entry.slot (tableBase cfg table)) = _
        rw [own, update_self]
    · intro other inside
      rcases mem_append.mp inside with old | new
      · exact listed.names other old
      · rw [mem_singleton.mp new]
        exact ⟨_, names⟩
    · intro other inside
      rcases mem_append.mp inside with old | new
      · rcases only (probeSlot cfg table other) with empty | same
        · exact .inl empty
        · simp only [same]
          exact listed.gone other old
      · rw [mem_singleton.mp new]
        exact .inl (update_self _ _ _)
  · refine ⟨listed.frame, listed.cleared, listed.names, ?_⟩
    intro other inside
    rcases mem_append.mp inside with old | new
    · exact listed.gone other old
    · rw [mem_singleton.mp new]
      exact .inr hit

theorem InvalidateListed.run (rest made : List (BitVec w × Nat))
    (scan : Tags w × List (ModifyEntry w)) (listed : InvalidateListed cfg table before made scan)
    (bounds : ∀ probe ∈ rest, probe.2 < numWays) :
    InvalidateListed cfg table before (made ++ rest)
      (rest.foldl (fun scan probe => invalidateWay cfg table probe.1 scan probe.2) scan) := by
  induction rest generalizing made scan with
  | nil => simpa using listed
  | cons probe rest ih =>
    have next := ih (made ++ [probe]) _ (listed.step sized probe (bounds probe mem_cons_self))
      (fun other member => bounds other (mem_cons_of_mem _ member))
    simpa using next

theorem invalidateScan_listed (keys : List (BitVec w)) (before : Tags w) :
    InvalidateListed cfg table before (probes keys) (invalidateScan cfg table keys before) := by
  rw [invalidateScan_eq]
  have start : InvalidateListed cfg table before [] (before, []) :=
    ⟨fun _ _ => rfl, by simp, by simp, by simp⟩
  apply start.run sized (probes keys) []
  rintro ⟨key, j⟩ member
  exact ((mem_probes keys key j).mp member).2

include listed in
omit sized in
theorem InvalidateListed.republished
    :
    invalidateTagKernel scan.2 (tableBase cfg table) cfg.sentinelKey before = scan.1 := by
  funext i
  by_cases named : ∃ entry ∈ scan.2, entry.slot (tableBase cfg table) = i
  · obtain ⟨entry, member, rfl⟩ := named
    rw [invalidateTagKernel_present _ _ _ _ entry member, listed.cleared entry member]
  · have absent : ∀ entry ∈ scan.2, entry.slot (tableBase cfg table) ≠ i :=
      fun entry member same => named ⟨entry, member, same⟩
    rw [listed.frame i absent, invalidateTagKernel_absent _ _ _ _ i absent]

include listed in
omit sized in
theorem InvalidateListed.cleared_or_same
    (i : Nat) :
    scan.1 i = cfg.sentinelKey ∨ scan.1 i = before i := by
  by_cases named : ∃ entry ∈ scan.2, entry.slot (tableBase cfg table) = i
  · obtain ⟨entry, member, rfl⟩ := named
    exact .inl (listed.cleared entry member)
  · exact .inr (listed.frame i fun entry member same => named ⟨entry, member, same⟩)

end Invalidate

section Update

variable {cfg : CacheConfig w C} {table : Nat} (sized : Sized cfg table)

include sized

private theorem searchTagStorageForUpdate_from (maxUpdateSz : Nat) (tags : Tags w)
    (buffer : RowBuffer)
    (keys : List (BitVec w)) (i : Nat) (entries : List (ModifyEntry w)) :
    searchTagStorageForUpdate cfg table maxUpdateSz tags buffer i keys entries = entries ++
      (((keys.zipIdx i).filter fun hit => isResident cfg table tags hit.1).take
        (maxUpdateSz - entries.length)).map (updateEntry cfg table tags buffer) := by
  induction keys generalizing i entries with
  | nil => simp [searchTagStorageForUpdate]
  | cons key rest ih =>
    unfold searchTagStorageForUpdate
    split_ifs with room
    · have hash := sized.hash_lt key
      have total := sized.base_add_sets
      have power : 2 ^ 32 ≤ 2 ^ max 32 w := Nat.pow_le_pow_right (by omega) (le_max_left _ _)
      have inside : ∀ j, j < numWays → hashSetIdx key cfg.numSets * numWays + j < 2 ^ max 32 w := by
        intro j bound
        simp only [numWays] at total bound ⊢
        omega
      have offset : hashSetIdx key cfg.numSets * numWays % 2 ^ max 32 w =
          hashSetIdx key cfg.numSets * numWays :=
        Nat.mod_eq_of_lt (inside 0 (by simp [numWays]))
      simp only [offset, zipIdx_cons, filter_cons]
      have found : searchWays tags (tableBase cfg table + hashSetIdx key cfg.numSets * numWays)
          (hashSetIdx key cfg.numSets) cfg.numSets key = findWay cfg table tags key := rfl
      rw [found]
      cases hit : findWay cfg table tags key with
      | none => simp [isResident, hit, ih]
      | some j =>
        have place : (hashSetIdx key cfg.numSets * numWays + j) % 2 ^ max 32 w =
            hashSetIdx key cfg.numSets * numWays + j := Nat.mod_eq_of_lt (inside j (findWay_lt hit))
        obtain ⟨left, rest⟩ : ∃ left, maxUpdateSz - entries.length = left + 1 :=
          ⟨maxUpdateSz - entries.length - 1, by omega⟩
        have remaining : maxUpdateSz - (entries.length + 1) = left := by omega
        simp [isResident, hit, ih, rest, remaining, place, updateEntry, ← Nat.add_mul,
          Nat.add_assoc]
    · have full : maxUpdateSz - entries.length = 0 := by omega
      simp [full]

theorem searchTagStorageForUpdate_eq (maxUpdateSz : Nat) (tags : Tags w) (buffer : RowBuffer)
    (keys : List (BitVec w)) :
    searchTagStorageForUpdate cfg table maxUpdateSz tags buffer 0 keys [] =
      (updateHits cfg table maxUpdateSz tags keys).map (updateEntry cfg table tags buffer) := by
  rw [searchTagStorageForUpdate_from sized, nil_append, updateHits]
  rfl

end Update

end CacheSAHostModify

end EmbedCache
