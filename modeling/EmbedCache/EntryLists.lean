import EmbedCache.ModifyList
import EmbedCache.Residency

/-! Modify entries as operations on slots of a table.

The entries made by host and device code name a slot of the table, carry the row
address of that slot, and publish a tag. This module says what copying and
publishing such a list does, and describes the list of an update. -/

namespace EmbedCache

open Lib List
open CacheSlot (index index_injective ofKey)

variable {w : Nat} {C : Type*} {cfg : CacheConfig w C}

theorem Sized.wrap32_width {table : Nat} (sized : Sized cfg table) :
    wrap32 cfg.embedWidthInBytes = cfg.embedWidthInBytes := by
  have row := sized.row
  exact wrap32_of_lt (by omega)

def ModifyEntry.Names {cfg : CacheConfig w C} (entry : ModifyEntry w) (slot : CacheSlot cfg) :
    Prop :=
  entry.set = slot.1 ∧ entry.way = slot.2

theorem ModifyEntry.Names.slot_eq {table : Nat} (sized : Sized cfg table) {entry : ModifyEntry w}
    {slot : CacheSlot cfg}
    (names : entry.Names slot) :
    entry.slot (tableBase cfg table) = slot.index table := by
  have bound := sized.index_lt slot
  rw [ModifyEntry.slot, names.1, names.2, wrap32_of_lt]
  · simp only [index, Nat.add_assoc]
  · simp only [index] at bound
    omega

variable (base width : Nat) (entries : List (ModifyEntry w))

theorem entry_writes_eq_rowWrites (rows : ∀ entry ∈ entries, entry.dst = entry.slot base * width) :
    (entries.map fun entry => (⟨entry.dst, width, entry.src⟩ : Write UInt8)) =
      rowWrites width (entries.map fun entry => (entry.slot base, entry.src)) := by
  rw [rowWrites, map_map]
  apply map_congr_left
  intro entry member
  simp only [Function.comp_apply, rows entry member]

theorem entry_eq_of_slot {base : Nat} {entries : List (ModifyEntry w)}
    (nodup : (entries.map (ModifyEntry.slot base)).Nodup) {first second : ModifyEntry w}
    (left : first ∈ entries) (right : second ∈ entries)
    (same : first.slot base = second.slot base) :
    first = second :=
  inj_on_of_nodup_map nodup left right same

variable (memory : Memory)

theorem rowAt_copied (rows : ∀ entry ∈ entries, entry.dst = entry.slot base * width)
    (entry : ModifyEntry w)
    (present : entry ∈ entries)
    (agrees : ∀ other ∈ entries, other.slot base = entry.slot base → other.src = entry.src) :
    rowAt (applyWrites memory (entries.map fun entry => ⟨entry.dst, width, entry.src⟩)) width
      (entry.slot base) =
      readRange entry.src 0 width := by
  rw [entry_writes_eq_rowWrites base width entries rows]
  apply rowAt_present memory width _ (entry.slot base, entry.src)
    (mem_map.mpr ⟨entry, present, rfl⟩)
  intro other member same
  rcases mem_map.mp member with ⟨source, inside, rfl⟩
  simp only [agrees source inside same]

theorem rowAt_not_copied (rows : ∀ entry ∈ entries, entry.dst = entry.slot base * width)
    (slot : Nat)
    (absent : ∀ entry ∈ entries, entry.slot base ≠ slot) :
    rowAt (applyWrites memory (entries.map fun entry => ⟨entry.dst, width, entry.src⟩)) width slot =
      rowAt memory width slot := by
  rw [entry_writes_eq_rowWrites base width entries rows]
  apply rowAt_absent
  intro row member
  obtain ⟨entry, present, rfl⟩ := mem_map.mp member
  exact absent entry present

theorem callMemUpdateKernel_eq_rewriteRows (numEntries sz : Nat) (memory : Memory) :
    callMemUpdateKernel entries numEntries sz memory =
      rewriteRows (fun _ src => src) (entries.take numEntries) sz memory := by
  rw [callMemUpdateKernel_eq, applyWrites, foldl_map, rewriteRows]

theorem outside_row {width slot other offset : Nat} (bound : offset < width)
    (apart : other ≠ slot) :
    slot * width + offset < other * width ∨ other * width + width ≤ slot * width + offset := by
  have outside := mt (row_covers_iff width slot other offset (fun _ => ()) bound).mp apart
  simp only [Write.Covers, not_and, not_lt] at outside
  omega

theorem rowBytes_blit_other (width slot other : Nat) (source : Nat → UInt8) (apart : other ≠ slot) :
    rowBytes (blit memory (other * width) width source) (slot * width) width =
      rowBytes memory (slot * width) width := by
  funext i
  simp only [rowBytes]
  split
  · rename_i bound
    exact blit_outside _ _ _ _ _ (outside_row bound apart)
  · rfl

section Rows

variable (base width : Nat) (add : (Nat → UInt8) → (Nat → UInt8) → Nat → UInt8)
  (entries : List (ModifyEntry w))

theorem rewriteRows_untouched (memory : Memory) (a : Nat)
    (untouched : ∀ entry ∈ entries, a < entry.dst ∨ entry.dst + width ≤ a) :
    rewriteRows add entries width memory a = memory a := by
  induction entries generalizing memory with
  | nil => rfl
  | cons entry rest ih =>
    have later := ih (blit memory entry.dst width (add (rowBytes memory entry.dst width) entry.src))
      fun other member => untouched other (mem_cons_of_mem _ member)
    exact later.trans (blit_outside _ _ _ _ _ (untouched entry mem_cons_self))

theorem rewriteRows_row (memory : Memory)
    (rows : ∀ entry ∈ entries, entry.dst = entry.slot base * width)
    (nodup : (entries.map (ModifyEntry.slot base)).Nodup) (entry : ModifyEntry w)
    (present : entry ∈ entries) (i : Nat)
    (bound : i < width) :
    rewriteRows add entries width memory (entry.dst + i) =
      add (rowBytes memory entry.dst width) entry.src i := by
  induction entries generalizing memory with
  | nil => exact absurd present not_mem_nil
  | cons first rest ih =>
    rw [map_cons, nodup_cons] at nodup
    have restRows := fun other member => rows other (mem_cons_of_mem _ member)
    rcases mem_cons.mp present with rfl | later
    · have untouched := rewriteRows_untouched width add rest
        (blit memory entry.dst width (add (rowBytes memory entry.dst width) entry.src))
          (entry.dst + i) (by
          intro other member
          rw [rows entry present, restRows other member]
          apply outside_row bound
          intro same
          exact nodup.1 (mem_map.mpr ⟨other, member, same⟩))
      refine untouched.trans ?_
      rw [blit_inside _ _ _ _ _ (by omega) (by omega)]
      congr 1
      omega
    · have apart : first.slot base ≠ entry.slot base := by
        intro same
        exact nodup.1 (mem_map.mpr ⟨entry, later, same.symm⟩)
      have tail :=
        ih (blit memory first.dst width (add (rowBytes memory first.dst width) first.src)) restRows
        nodup.2 later
      rw [rows first mem_cons_self, rows entry present, rowBytes_blit_other _ _ _ _ _ apart] at tail
      rw [rows entry present, ← tail]
      simp only [rewriteRows, foldl_cons, rows first mem_cons_self]

end Rows

def insertEntry (cfg : CacheConfig w C) (table : Nat) (item : InsertItem w C)
    (slot : CacheSlot cfg) :
    ModifyEntry w where
  src := item.data
  dst := slot.index table * cfg.embedWidthInBytes
  set := slot.1
  way := slot.2
  tag := constructTag item.key cfg.numSets

theorem insertEntry_names (table : Nat) (item : InsertItem w C) (slot : CacheSlot cfg) :
    (insertEntry cfg table item slot).Names slot := ⟨rfl, rfl⟩

section Update

variable {cfg : CacheConfig w C} {table : Nat}

def isResident (cfg : CacheConfig w C) (table : Nat) (tags : Tags w) (key : BitVec w) : Bool :=
  (findWay cfg table tags key).isSome

def updateEntry (cfg : CacheConfig w C) (table : Nat) (tags : Tags w) (buffer : RowBuffer)
    (hit : BitVec w × Nat) : ModifyEntry w :=
  let set := hashSetIdx hit.1 cfg.numSets
  let j := (findWay cfg table tags hit.1).getD 0
  { src := buffer.row hit.2
    dst := (tableBase cfg table + set * numWays + j) * cfg.embedWidthInBytes
    set := set
    way := j
    tag := tags (tableBase cfg table + set * numWays + j) }

/-- The first `max_update_sz` resident keys of the call, with their positions. -/
def updateHits (cfg : CacheConfig w C) (table maxUpdateSz : Nat) (tags : Tags w)
    (keys : List (BitVec w)) :
    List (BitVec w × Nat) :=
  (keys.zipIdx.filter fun hit => isResident cfg table tags hit.1).take maxUpdateSz

theorem findWay_lt {tags : Tags w} {key : BitVec w} {j : Nat}
    (found : findWay cfg table tags key = some j) :
    j < numWays := by
  simp only [findWay, searchWays] at found
  exact mem_range.mp (mem_of_find?_eq_some found)

theorem updateHits_keys (cfg : CacheConfig w C) (table maxUpdateSz : Nat) (tags : Tags w)
    (keys : List (BitVec w)) :
    (updateHits cfg table maxUpdateSz tags keys).map Prod.fst =
      (keys.filter (isResident cfg table tags)).take maxUpdateSz := by
  have whole : (keys.zipIdx.filter fun hit => isResident cfg table tags hit.1).map Prod.fst =
      keys.filter (isResident cfg table tags) := by
    have pulled := filter_map (p := isResident cfg table tags) (f := Prod.fst) (l := keys.zipIdx)
    rw [zipIdx_map_fst] at pulled
    exact pulled.symm
  rw [updateHits, map_take, whole]

theorem mem_updateHits {table maxUpdateSz : Nat} {tags : Tags w} {keys : List (BitVec w)}
    (nodup : keys.Nodup)
    {hit : BitVec w × Nat} (member : hit ∈ updateHits cfg table maxUpdateSz tags keys) :
    hit.1 ∈ keys ∧ hit.2 = keys.idxOf hit.1 ∧ isResident cfg table tags hit.1 = true := by
  have inside := mem_of_mem_take member
  obtain ⟨paired, resident⟩ := mem_filter.mp inside
  have entry := mem_zipIdx_iff_getElem?.mp paired
  obtain ⟨bound, value⟩ := List.getElem?_eq_some_iff.mp entry
  refine ⟨value ▸ getElem_mem bound, ?_, resident⟩
  rw [← value, nodup.idxOf_getElem]

section

variable {cfg : CacheConfig w C} {table : Nat} (sized : Sized cfg table) (tags : Tags w)
  (buffer : RowBuffer) (hit : BitVec w × Nat) (resident : isResident cfg table tags hit.1 = true)

include sized tags buffer hit resident

theorem updateEntry_own :
    (updateEntry cfg table tags buffer hit).tag =
      tags ((updateEntry cfg table tags buffer hit).slot (tableBase cfg table)) := by
  rcases Option.isSome_iff_exists.mp resident with ⟨way, found⟩
  have names :
      (updateEntry cfg table tags buffer hit).Names
      (ofKey sized hit.1 ⟨way, findWay_lt found⟩) := by
    simp only [updateEntry, found, Option.getD_some, ModifyEntry.Names, ofKey]
    exact ⟨trivial, trivial⟩
  rw [names.slot_eq sized]
  simp only [updateEntry, found, Option.getD_some, index, ofKey]

theorem updateEntry_rebuilds :
    ∃ way : Fin numWays, (updateEntry cfg table tags buffer hit).Names (ofKey sized hit.1 way) ∧
      constructKey (tags ((ofKey sized hit.1 way).index table)) (hashSetIdx hit.1 cfg.numSets)
        cfg.numSets = hit.1 := by
  rcases Option.isSome_iff_exists.mp resident with ⟨way, found⟩
  refine ⟨⟨way, findWay_lt found⟩, ?_, ?_⟩
  · simp only [updateEntry, found, Option.getD_some, ModifyEntry.Names, ofKey]
    exact ⟨trivial, trivial⟩
  · simp only [findWay, searchWays] at found
    have rebuilt := List.find?_some found
    exact beq_iff_eq.mp rebuilt

end

theorem updateEntries_nodup {table : Nat} (sized : Sized cfg table) (maxUpdateSz : Nat)
    (tags : Tags w)
    (keys : List (BitVec w)) (buffer : RowBuffer) (nodup : keys.Nodup) :
    (((updateHits cfg table maxUpdateSz tags keys).map (updateEntry cfg table tags buffer)).map
      (ModifyEntry.slot (tableBase cfg table))).Nodup := by
  have hits : (updateHits cfg table maxUpdateSz tags keys).Nodup := by
    apply List.Nodup.of_map Prod.fst
    rw [updateHits_keys]
    exact (nodup.filter _).sublist (take_sublist _ _)
  rw [map_map]
  apply hits.map_on
  intro first left second right same
  rcases mem_updateHits nodup left with ⟨_, positionFirst, residentFirst⟩
  rcases mem_updateHits nodup right with ⟨_, positionSecond, residentSecond⟩
  rcases updateEntry_rebuilds sized tags buffer first
    residentFirst with ⟨_, namesFirst, rebuildsFirst⟩
  rcases updateEntry_rebuilds sized tags buffer second
    residentSecond with ⟨_, namesSecond, rebuildsSecond⟩
  simp only [Function.comp_apply, namesFirst.slot_eq sized, namesSecond.slot_eq sized] at same
  have slots := index_injective same
  have sets : hashSetIdx first.1 cfg.numSets = hashSetIdx second.1 cfg.numSets :=
    congrArg (fun slot : CacheSlot cfg => slot.1.val) slots
  have keysEqual : first.1 = second.1 := by
    rw [← rebuildsFirst, slots, sets, rebuildsSecond]
  refine Prod.ext keysEqual ?_
  rw [positionFirst, positionSecond, keysEqual]

variable {cfg : CacheConfig w C} {table : Nat} (sized : Sized cfg table)
  (marker : cfg.sentinelKey = -1)

include sized marker

theorem updateEntry_names (tags : Tags w) (buffer : RowBuffer) (hit : BitVec w × Nat)
    (nonnegative : NonNegative hit.1) (resident : isResident cfg table tags hit.1 = true) :
    ∃ slot : CacheSlot cfg, heldKey cfg table tags slot = some hit.1 ∧
      (updateEntry cfg table tags buffer hit).Names slot ∧
      (updateEntry cfg table tags buffer hit).dst = slot.index table * cfg.embedWidthInBytes ∧
      (updateEntry cfg table tags buffer hit).tag = tags (slot.index table) := by
  obtain ⟨way, found⟩ := Option.isSome_iff_exists.mp resident
  obtain ⟨bound, held⟩ := held_of_findWay sized marker tags hit.1 nonnegative way found
  refine ⟨ofKey sized hit.1 ⟨way, bound⟩, held, ?_⟩
  simp only [updateEntry, found, Option.getD_some, ModifyEntry.Names, ofKey, index]
  exact ⟨⟨trivial, trivial⟩, trivial, trivial⟩

section Hits

variable (maxUpdateSz : Nat) (tags : Tags w) (keys : List (BitVec w)) (buffer : RowBuffer)
  (nodup : keys.Nodup) (nonnegative : ∀ key ∈ keys, NonNegative key)

include nodup nonnegative

theorem updateEntries_mem (entry : ModifyEntry w)
    (member : entry ∈ (updateHits cfg table maxUpdateSz tags keys).map
      (updateEntry cfg table tags buffer)) :
    ∃ slot : CacheSlot cfg, ∃ key ∈ (keys.filter (isResident cfg table tags)).take maxUpdateSz,
      heldKey cfg table tags slot = some key ∧ entry.slot (tableBase cfg table) = slot.index table ∧
      entry.dst = slot.index table * cfg.embedWidthInBytes ∧ entry.tag = tags (slot.index table) ∧
      entry.src = buffer.row (keys.idxOf key) := by
  obtain ⟨hit, inside, rfl⟩ := mem_map.mp member
  obtain ⟨present, position, resident⟩ := mem_updateHits nodup inside
  obtain ⟨slot, held, names, dst, tag⟩ :=
    updateEntry_names sized marker tags buffer hit (nonnegative _ present) resident
  refine ⟨slot, hit.1, ?_, held, names.slot_eq sized, dst, tag, ?_⟩
  · rw [← updateHits_keys]
    exact mem_map.mpr ⟨hit, inside, rfl⟩
  · rw [← position]
    rfl

section

variable (list : List (ModifyEntry w))
  (members : ∀ entry, entry ∈ list ↔
  entry ∈ (updateHits cfg table maxUpdateSz tags keys).map (updateEntry cfg table tags buffer))

include list members

/-- Publishing the list of an update, once the other tags are untouched, gives the tags back. -/
theorem update_republished
    (cleared : Tags w)
    (untouched : ∀ i, (∀ entry ∈ list, entry.slot (tableBase cfg table) ≠ i) → cleared i = tags i) :
    tagUpdateKernel list (tableBase cfg table) cleared = tags := by
  apply tagUpdateKernel_own list (tableBase cfg table) tags cleared _ untouched
  intro entry member
  rcases updateEntries_mem sized marker maxUpdateSz tags keys buffer nodup nonnegative entry
    ((members entry).mp member)
    with ⟨slot, _, _, _, place, _, tag, _⟩
  rw [place, tag]

/-- The rows after copying the list of an update: the resident keys it reaches get their new row,
the others keep theirs. -/
theorem update_rows
    (memory : Memory) (distinct : (view cfg table tags memory).Distinct) (slot : CacheSlot cfg)
    (key : BitVec w)
    (held : heldKey cfg table tags slot = some key) :
    (key ∈ (keys.filter (isResident cfg table tags)).take maxUpdateSz →
      rowAt (applyWrites memory (list.map fun entry =>
        ⟨entry.dst, cfg.embedWidthInBytes, entry.src⟩))
        cfg.embedWidthInBytes (slot.index table) =
        readRange (buffer.row (keys.idxOf key)) 0 cfg.embedWidthInBytes) ∧
    (key ∉ (keys.filter (isResident cfg table tags)).take maxUpdateSz →
      rowAt (applyWrites memory (list.map fun entry =>
        ⟨entry.dst, cfg.embedWidthInBytes, entry.src⟩))
        cfg.embedWidthInBytes (slot.index table) =
          rowAt memory cfg.embedWidthInBytes (slot.index table)) := by
  have mem := updateEntries_mem sized marker maxUpdateSz tags keys buffer nodup nonnegative
  have slots := updateEntries_nodup sized maxUpdateSz tags keys buffer nodup
  have rows : ∀ entry ∈ list, entry.dst =
      entry.slot (tableBase cfg table) * cfg.embedWidthInBytes := by
    intro entry member
    rcases mem entry ((members entry).mp member) with ⟨target, _, _, _, place, dst, _⟩
    rw [place, dst]
  constructor
  · intro reached
    rcases mem_map.mp ((updateHits_keys cfg table maxUpdateSz tags keys) ▸ reached) with ⟨hit,
      inside, rfl⟩
    have listed : updateEntry cfg table tags buffer hit ∈
        (updateHits cfg table maxUpdateSz tags keys).map (updateEntry cfg table tags buffer) :=
      mem_map_of_mem inside
    rcases mem_updateHits nodup inside with ⟨present, position, resident⟩
    rcases updateEntry_names sized marker tags buffer hit (nonnegative _ present) resident with
      ⟨target, targetHeld, names, _⟩
    have same := distinct target slot hit.1 targetHeld held
    have row := rowAt_copied (tableBase cfg table) cfg.embedWidthInBytes list memory rows
      (updateEntry cfg table tags buffer hit) ((members _).mpr listed) fun other member equal => by
        rw [entry_eq_of_slot slots ((members other).mp member) listed equal]
    rw [names.slot_eq sized, same] at row
    rw [← position]
    exact row
  · intro missed
    apply rowAt_not_copied (tableBase cfg table) cfg.embedWidthInBytes list memory rows
    intro entry member same
    rcases mem entry ((members entry).mp member) with ⟨target, found, inside, targetHeld, place, _⟩
    have slotsEqual := index_injective (place.symm.trans same)
    rw [slotsEqual] at targetHeld
    have keysEqual : found = key := Option.some.inj (targetHeld.symm.trans held)
    exact missed (keysEqual ▸ inside)

end

end Hits

end Update

end EmbedCache
