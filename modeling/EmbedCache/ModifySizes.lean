import EmbedCache.JobSoundness
import EmbedCache.TableKeys

/-! Modify calls of a `GpuTable` on key lists of any length.

`update` and `update_accumulate` cut the list into parts of `max_modify_size` keys; a
part never fills the modify list beyond its capacity, leaves all tags in place and
gives each of its resident keys the row that was meant. `erase` is not cut: it fits
exactly when no more than `max_modify_size` of its keys are resident. -/

namespace EmbedCache

open Lib List
open CacheSADeviceModify (Rebuilds)
open CacheSAHostModify

variable {w : Nat} {C : Type*}

def rowCells (row : Row) : Nat → UInt8 := fun i => row.getD i 0

theorem rowCells_rowAt (memory : Memory) (width slot : Nat) :
    rowCells (rowAt memory width slot) = rowBytes memory (slot * width) width := by
  funext i
  simp only [rowCells, rowAt, readRange, rowBytes, getD_eq_getElem?_getD, getElem?_map]
  split
  · rename_i bound
    simp [bound]
  · rename_i outside
    simp [outside]

section Lookup

variable {cfg : CacheConfig w C} {table : Nat} (sized : Sized cfg table)

include sized

theorem queryAddress_eq (tags : Tags w) (key : BitVec w) :
    queryAddress cfg table tags key = (findWay cfg table tags key).map fun way =>
      (tableBase cfg table + hashSetIdx key cfg.numSets * numWays + way) *
        cfg.embedWidthInBytes := by
  rw [queryAddress, sized.wayOfMask_eq]
  cases found : findWay cfg table tags key with
  | none => rfl
  | some way =>
    have bound := sized.index_lt (CacheSlot.ofKey sized key ⟨way, findWay_lt found⟩)
    simp only [CacheSlot.index, CacheSlot.ofKey] at bound
    simp only [Option.map_some, sized.wrap32_numSets]
    rw [wrap32_of_lt (by rw [tableBase] at bound; exact bound)]
    rfl

theorem lookup_eq_rowAt (tags : Tags w) (memory : Memory) (key : BitVec w) :
    lookup cfg table tags memory key = (findWay cfg table tags key).map fun way =>
      rowAt memory cfg.embedWidthInBytes
        (tableBase cfg table + hashSetIdx key cfg.numSets * numWays + way) := by
  rw [lookup, queryAddress_eq sized, Option.map_map]
  rfl

omit sized in
theorem rebuilds_of_findWay {tags : Tags w} {key : BitVec w} {way : Nat}
    (found : findWay cfg table tags key = some way) :
    constructKey (tags (tableBase cfg table + hashSetIdx key cfg.numSets * numWays + way))
      (hashSetIdx key cfg.numSets) cfg.numSets = key := by
  simp only [findWay, searchWays] at found
  have rebuilt := find?_some found
  exact beq_iff_eq.mp rebuilt

end Lookup

section Job

variable {cfg : CacheConfig w C} {arithmetic : RowArithmetic} {job : ModifyJob w C} {tags : Tags w}
  {keys : List (BitVec w)} (sized : Sized cfg job.table) (sound : job.Sound cfg arithmetic tags)
  (kept : job.tags = tags)
  (mine : ∀ entry ∈ job.entries, constructKey entry.tag entry.set cfg.numSets ∈ keys)
  (covers : ∀ key ∈ keys, ∀ way, findWay cfg job.table tags key = some way →
    tableBase cfg job.table + hashSetIdx key cfg.numSets * numWays + way ∈ job.slots cfg)

include sized sound kept

theorem ModifyJob.Sound.places_found {key : BitVec w} {way : Nat}
    (found : findWay cfg job.table tags key = some way)
    {entry : ModifyEntry w} (member : entry ∈ job.entries)
    (place : entry.slot (tableBase cfg job.table) =
      tableBase cfg job.table + hashSetIdx key cfg.numSets * numWays + way) :
    job.Places cfg arithmetic entry key := by
  obtain ⟨owner, places⟩ := sound.placed entry member
  have tag : tags (entry.slot (tableBase cfg job.table)) = entry.tag := by
    rw [← kept, sound.tags]
    apply tagUpdateKernel_present _ _ _ entry member
    intro other inside same
    rw [inj_on_of_nodup_map sound.nodup inside member same]
  have set : entry.set = hashSetIdx key cfg.numSets := by
    rw [places.set, places.slot_set sized, place,
      setOf_index _ _ (sized.hash_lt key) (findWay_lt found)]
  have rebuilt := rebuilds_of_findWay found
  rw [← place, tag, ← set, places.key_eq sized] at rebuilt
  exact rebuilt ▸ places

include mine covers

/-- After the job every key of the call that is resident has the row that was meant for it, and
every other lookup is as before. -/
theorem ModifyJob.Sound.lookup_eq (memory : Memory) (key : BitVec w) :
    lookup cfg job.table tags (job.write cfg arithmetic memory) key =
      if key ∈ keys then (lookup cfg job.table tags memory key).map fun old =>
        readRange (job.given key (rowCells old)) 0 cfg.embedWidthInBytes
      else lookup cfg job.table tags memory key := by
  rw [lookup_eq_rowAt sized, lookup_eq_rowAt sized]
  cases found : findWay cfg job.table tags key with
  | none => simp
  | some way =>
    by_cases named : tableBase cfg job.table + hashSetIdx key cfg.numSets * numWays + way ∈
      job.slots cfg
    · obtain ⟨entry, member, place⟩ := named
      have places := sound.places_found sized kept found member place
      have present : key ∈ keys := by
        have rebuilt := mine entry member
        rw [places.key_eq sized] at rebuilt
        exact rebuilt
      simp only [Option.map_some, if_pos present, rowCells_rowAt, ← place]
      congr 1
      apply readRange_congr
      intro i bound
      rw [sound.write_row sized memory member places i bound, Nat.zero_add]
    · have absent : key ∉ keys := fun present => named (covers key present way found)
      simp only [Option.map_some, if_neg absent]
      congr 1
      apply readRange_congr
      intro i bound
      exact sound.write_frame sized memory _ (sound.not_stores sized named bound)

end Job

/-! ### One part -/

def RowStep.call (rows : RowStep) (maxUpdateSz : Nat) (keys : List (BitVec w))
    (buffer : RowBuffer) : CommitCall w C :=
  match rows with
  | .copy => .update maxUpdateSz keys buffer
  | .accumulate updateFormat cacheFormat =>
    .updateAccumulate maxUpdateSz updateFormat cacheFormat keys buffer

def RowStep.Supported (width : Nat) : RowStep → Prop
  | .copy => True
  | .accumulate updateFormat _ => updateFormat ≠ .int8Scaled ∧ WholeElements updateFormat width

theorem RowStep.Supported.whole {width : Nat} {rows : RowStep} (supported : rows.Supported width) :
    rows.Whole width := by
  cases rows with
  | copy => trivial
  | accumulate => exact supported.2

def RowStep.newRow (cfg : CacheConfig w C) (arithmetic : RowArithmetic) (rows : RowStep)
    (keys : List (BitVec w))
    (buffer : RowBuffer) (key : BitVec w) (old : Row) : Row :=
  readRange (rows.result arithmetic cfg.embedWidthInBytes (rowCells old)
    (buffer.row (keys.idxOf key))) 0 cfg.embedWidthInBytes

/-- The old row of a key plus its update, element by element. -/
def sumRow (cfg : CacheConfig w C) (arithmetic : RowArithmetic) (format : DataTypeFormat)
    (keys : List (BitVec w)) (buffer : RowBuffer) (key : BitVec w) (old : Row) : Row :=
  readRange (arithmetic.elementSum format (rowCells old) (buffer.row (keys.idxOf key))) 0
    cfg.embedWidthInBytes

theorem newRow_eq_sumRow {cfg : CacheConfig w C} (arithmetic : RowArithmetic)
    {format : DataTypeFormat}
    (plain : format ≠ .int8Scaled) (other : DataTypeFormat) {keys : List (BitVec w)}
    {buffer : RowBuffer} :
    (RowStep.accumulate format other).newRow cfg arithmetic keys buffer =
      sumRow cfg arithmetic format keys buffer := by
  funext key old
  apply readRange_congr
  intro i bound
  rw [Nat.zero_add]
  exact arithmetic.rowSum_eq plain other _ _ bound

section Part

variable {cfg : CacheConfig w C} (arithmetic : RowArithmetic) (rows : RowStep)
  {table maxUpdateSz : Nat} {keys : List (BitVec w)} (buffer : RowBuffer)
  (mapOrder : CacheSAHostModify.MapOrder w)
  (atomicOrder : AtomicOrder w) (outcome : Outcome) (sized : Sized cfg table) (nodup : keys.Nodup)
  (real : ∀ key ∈ keys, RealKey cfg key) (room : keys.length ≤ maxUpdateSz)
  (supported : rows.Supported cfg.embedWidthInBytes)
  (calls : ∀ call, outcome call = .success)

@[simp] theorem RowStep.call_keys :
    (rows.call maxUpdateSz keys buffer : CommitCall w C).keys = keys := by
  cases rows <;> rfl

@[simp] theorem RowStep.call_rows :
    (rows.call maxUpdateSz keys buffer : CommitCall w C).rows = rows := by
  cases rows <;> rfl

theorem RowStep.call_given (key : BitVec w) (old : Row) :
    readRange ((rows.call maxUpdateSz keys buffer : CommitCall w C).given arithmetic
      cfg.embedWidthInBytes key (rowCells old)) 0 cfg.embedWidthInBytes =
        rows.newRow cfg arithmetic keys buffer key old := by
  cases rows <;> rfl

namespace CacheSAHostModify

include calls in
theorem modify_succeeds (request : ModifyRequest) (entries : List (ModifyEntry w))
    (state : HostState w C)
    (accepted : (memUpdateStep (C := C) cfg arithmetic request entries).refusal = none) :
    (modify cfg arithmetic outcome request table entries state).1 = .success := by
  unfold modify
  split
  · rfl
  · rw [runSteps_ok_iff]
    intro step member
    rcases mem_append.mp member with sync | commit
    · simp only [mem_cons, not_mem_nil, or_false] at sync
      rcases sync with rfl | rfl | rfl | rfl | rfl | rfl <;> exact calls _
    · split at commit
      · exact absurd commit not_mem_nil
      · simp only [mem_cons, not_mem_nil, or_false] at commit
        rcases commit with rfl | rfl
        · rw [GuardedStep.result, accepted]
          exact calls _
        · exact calls _

theorem updateHits_of_found {tags : Tags w} {key : BitVec w} {way i : Nat}
    (room : keys.length ≤ maxUpdateSz)
    (bound : i < keys.length) (value : keys[i] = key)
    (found : findWay cfg table tags key = some way) :
    (key, i) ∈ updateHits cfg table maxUpdateSz tags keys := by
  have short : (keys.zipIdx.filter fun hit => isResident cfg table tags hit.1).length ≤
      maxUpdateSz := by
    refine (length_filter_le _ _).trans ?_
    rw [length_zipIdx]
    exact room
  rw [updateHits, take_of_length_le short, mem_filter]
  refine ⟨mem_zipIdx_iff_getElem?.mpr ?_, by simp [isResident, found]⟩
  rw [getElem?_eq_getElem bound, value]

variable [LinearOrder C] [Zero C] [Add C] [Mul C]

include sized nodup real room supported

omit [Zero C] in
theorem job_lookup {tags : Tags w} (counters : Nat → C) (owned : Owned cfg tags) (memory : Memory)
    (key : BitVec w) :
    lookup cfg table tags
      ((job cfg arithmetic ⟨rows.call maxUpdateSz keys buffer, table, mapOrder, atomicOrder⟩ tags
        counters).write cfg arithmetic memory) key =
      if key ∈ keys then (lookup cfg table tags memory key).map
        (rows.newRow cfg arithmetic keys buffer key)
      else lookup cfg table tags memory key := by
  let request : CommitRequest w C :=
    ⟨rows.call maxUpdateSz keys buffer, table, mapOrder, atomicOrder⟩
  let made := job cfg arithmetic request tags counters
  have entries : made.entries =
      (updateHits cfg table maxUpdateSz tags keys).map (updateEntry cfg table tags buffer) := by
    rw [← searchTagStorageForUpdate_eq sized]
    cases rows <;> rfl
  have sound : made.Sound cfg arithmetic tags :=
    job_sound arithmetic request sized tags counters (by simpa [request] using nodup)
      (by simpa [request] using real) owned (by simpa [request] using supported.whole)
  have kept : made.tags = tags := by cases rows <;> rfl
  have mine : ∀ entry ∈ made.entries, constructKey entry.tag entry.set cfg.numSets ∈ keys := by
    intro entry member
    rw [entries] at member
    obtain ⟨hit, inside, rfl⟩ := mem_map.mp member
    obtain ⟨present, _, resident⟩ := mem_updateHits nodup inside
    obtain ⟨way, names, rebuilt⟩ := updateEntry_rebuilds sized tags buffer hit resident
    rw [updateEntry_own sized tags buffer hit resident, names.slot_eq sized, names.1]
    exact rebuilt.symm ▸ present
  have covers : ∀ key ∈ keys, ∀ way, findWay cfg table tags key = some way →
      tableBase cfg table + hashSetIdx key cfg.numSets * numWays + way ∈ made.slots cfg := by
    intro key present way found
    obtain ⟨i, bound, value⟩ := mem_iff_getElem.mp present
    have listed := updateHits_of_found room bound value found
    refine ⟨updateEntry cfg table tags buffer
      (key, i), by rw [entries]; exact mem_map_of_mem listed, ?_⟩
    have names : (updateEntry cfg table tags buffer (key, i)).Names
        (CacheSlot.ofKey sized key ⟨way, findWay_lt found⟩) := by
      simp only [updateEntry, found, Option.getD_some, ModifyEntry.Names, CacheSlot.ofKey]
      exact ⟨trivial, trivial⟩
    exact names.slot_eq sized
  have meant : (fun old => readRange (made.given key (rowCells old)) 0 cfg.embedWidthInBytes) =
      rows.newRow cfg arithmetic keys buffer key :=
    funext fun old => RowStep.call_given arithmetic rows buffer key old
  have result := sound.lookup_eq sized kept mine covers memory key
  rw [meant] at result
  exact result

include calls

omit [Zero C] in
theorem amends (state : HostState w C) (owned : Owned cfg state.hTags)
    (mirrored : state.hTags = state.dTags) :
    ∃ after, performCommit cfg arithmetic
      ⟨rows.call maxUpdateSz keys buffer, table, mapOrder, atomicOrder⟩ outcome state =
        (.success, after) ∧ after.hTags = state.hTags ∧ after.dTags = state.dTags ∧
      ∀ key, lookup cfg table after.dTags after.cache key =
        if key ∈ keys then (lookup cfg table state.dTags state.cache key).map
          (rows.newRow cfg arithmetic keys buffer key)
        else lookup cfg table state.dTags state.cache key := by
  let request : CommitRequest w C :=
    ⟨rows.call maxUpdateSz keys buffer, table, mapOrder, atomicOrder⟩
  let made := job cfg arithmetic request state.hTags state.hCounters
  have success : (performCommit cfg arithmetic request outcome state).1 = .success := by
    cases rows with
    | copy => exact modify_succeeds arithmetic outcome calls _ _ state rfl
    | accumulate updateFormat cacheFormat =>
      apply modify_succeeds arithmetic outcome calls _ _ state
      cases updateFormat with
      | fp16 | fp32 => rfl
      | int8Scaled => exact absurd rfl supported.1
  have sound : made.Sound cfg arithmetic state.hTags :=
    job_sound arithmetic request sized state.hTags state.hCounters (by simpa [request] using nodup)
      (by simpa [request] using real) owned (by simpa [request] using supported.whole)
  have kept : made.tags = state.hTags := by cases rows <;> rfl
  have published : made.publish cfg (made.conceal cfg state.dTags) = state.dTags := by
    rw [sound.publish_eq, sound.conceal_eq, ← mirrored,
      tagUpdateKernel_congr _ _ _ state.hTags
        (fun i absent => invalidateTagKernel_absent _ _ _ _ i absent),
      ← sound.tags, kept]
  obtain ⟨after, result⟩ : ∃ after, performCommit cfg arithmetic request outcome state =
      (.success, after) :=
    ⟨_, Prod.ext success rfl⟩
  refine ⟨after, result, ?_⟩
  rw [performCommit_eq_job cfg arithmetic request outcome result]
  refine ⟨kept, published, fun key => ?_⟩
  dsimp only
  rw [published, ← mirrored]
  exact job_lookup arithmetic rows buffer mapOrder atomicOrder sized nodup real room supported
    state.hCounters owned state.cache key

end CacheSAHostModify

namespace CacheSADeviceModify

include calls in
theorem runModify_succeeds {prepare sync commit : List (DeviceStep w C)} (state : DeviceState w C)
    (prepared : ∀ step ∈ prepare, step.refusal = none)
    (committed : ∀ step ∈ commit, step.refusal = none) :
    (runModify outcome prepare sync commit state).1 = .success := by
  have accepted : ∀ step : DeviceStep w C, step.refusal = none →
      step.result outcome = .success := by
    intro step none
    rw [GuardedStep.result, none]
    exact calls _
  have first : (runSteps .success outcome prepare state).1 = .success :=
    (runSteps_ok_iff _ _ _ _).mpr fun step member => accepted step (prepared step member)
  simp only [runModify, if_pos first]
  exact (runSteps_ok_iff _ _ _ _).mpr fun step member => accepted step (committed step member)

/-- The sizes for which `SetUpdateDataKernel` adds up row addresses and source offsets without a
wrap. -/
structure FitsKernel (cfg : CacheConfig w C) (buffer : RowBuffer) (numKeys : Nat) : Prop where
  bytes : cfg.numSets * numWays * cfg.embedWidthInBytes ≤ 2 ^ 32
  forward : 0 ≤ buffer.stride
  small : buffer.stride < 2 ^ 32
  reach : ∀ i < numKeys, i * buffer.stride < 2 ^ 32

def amendJob (cfg : CacheConfig w C) (arithmetic : RowArithmetic) (request : CommitRequest w C)
    (rows : RowStep)
    (entries : List (ModifyEntry w)) (tags : Tags w) (counters : Nat → C) : ModifyJob w C where
  table := request.table
  entries := entries
  launched := request.call.keys.length
  rows := rows
  refusal := refusal request.call
  given := request.call.given arithmetic cfg.embedWidthInBytes
  tags := tagUpdateKernel entries (tableBase cfg request.table) tags
  counters := counters

section Job

variable {tags : Tags w} (counters : Nat → C) {entries : List (ModifyEntry w)}
  (listed : entries.Perm (computeSetUpdateData cfg table keys buffer tags))

include sized listed

theorem amend_entry {entry : ModifyEntry w} (member : entry ∈ entries) :
    ∃ key ∈ keys, ∃ way < numWays, Rebuilds cfg table tags key way ∧
      entry.set = hashSetIdx key cfg.numSets ∧
      entry.tag = constructTag key cfg.numSets ∧
      entry.slot (tableBase cfg table) = tableBase cfg table + hashSetIdx key cfg.numSets *
        numWays + way := by
  obtain ⟨hit, inside, way, bound, rebuilt, rfl⟩ :=
    (mem_setUpdateDataKernel sized).mp (listed.mem_iff.mp member)
  have present : hit.1 ∈ keys := mem_of_getElem? (mem_zipIdx_iff_getElem?.mp inside)
  refine ⟨hit.1, present, way, bound,
    rebuilt, by rw [sized.wrap32_numSets], by rw [sized.wrap32_numSets], ?_⟩
  simp only [sized.wrap32_numSets]
  exact ModifyEntry.slot_eq sized (sized.hash_lt hit.1) bound

include real

theorem amend_tags (owned : Owned cfg tags) (cleared : Tags w)
    (untouched : ∀ i, (∀ entry ∈ entries, entry.slot (tableBase cfg table) ≠ i) →
      cleared i = tags i) :
    tagUpdateKernel entries (tableBase cfg table) cleared = tags := by
  apply tagUpdateKernel_own entries _ tags cleared _ untouched
  intro entry member
  obtain ⟨key, present, way, bound, rebuilt, _, tag, place⟩ :=
    amend_entry buffer sized listed member
  rw [tag, place]
  exact (owned.tag_of_rebuilt sized (real key present) way bound rebuilt).symm

include nodup supported

theorem amendJob_lookup (fits : FitsKernel cfg buffer keys.length)
    (short : entries.length ≤ keys.length)
    (owned : Owned cfg tags) (memory : Memory) (key : BitVec w) :
    lookup cfg table tags
      ((amendJob cfg arithmetic ⟨rows.call maxUpdateSz keys buffer, table, mapOrder, atomicOrder⟩
        rows entries tags counters).write cfg arithmetic memory) key =
      if key ∈ keys then (lookup cfg table tags memory key).map
        (rows.newRow cfg arithmetic keys buffer key)
      else lookup cfg table tags memory key := by
  generalize built :
    amendJob cfg arithmetic ⟨rows.call maxUpdateSz keys buffer, table, mapOrder, atomicOrder⟩ rows
    entries tags counters = made
  have onTable : made.table = table := by rw [← built]; rfl
  have sound : made.Sound cfg arithmetic tags := by
    rw [← built]
    apply hits_sound arithmetic ⟨rows.call maxUpdateSz keys buffer, table, mapOrder, atomicOrder⟩
      sized tags
      (by simpa using nodup) (by simpa using real) buffer _ fits.bytes fits.forward fits.small
        (by simpa using fits.reach) rfl
      (by simpa [amendJob] using listed) (by simpa [amendJob] using short) rfl
    · intro key old
      cases rows <;> rfl
    · exact supported.whole
  have kept : made.tags = tags := by
    rw [← built]
    exact amend_tags buffer sized real listed owned tags fun _ _ => rfl
  have mine : ∀ entry ∈ made.entries, constructKey entry.tag entry.set cfg.numSets ∈ keys := by
    rw [← built]
    intro entry member
    obtain ⟨key, present, way, bound, rebuilt, set, tag, place⟩ :=
      amend_entry buffer sized listed member
    rw [tag, set, constructKey_constructTag_hash key cfg.numSets sized.sets_fit sized.positive]
    exact present
  have covers : ∀ key ∈ keys, ∀ way, findWay cfg table tags key = some way →
      tableBase cfg table + hashSetIdx key cfg.numSets * numWays + way ∈ made.slots cfg := by
    rw [← built]
    intro key present way found
    obtain ⟨i, bound, value⟩ := mem_iff_getElem.mp present
    have paired : (key, i) ∈ keys.zipIdx :=
      mem_zipIdx_iff_getElem?.mpr (by rw [getElem?_eq_getElem bound, value])
    refine ⟨_, listed.mem_iff.mpr ((mem_setUpdateDataKernel sized).mpr
      ⟨(key, i), paired, way, findWay_lt found, rebuilds_of_findWay found, rfl⟩), ?_⟩
    simp only [sized.wrap32_numSets]
    exact ModifyEntry.slot_eq sized (sized.hash_lt key) (findWay_lt found)
  have meant : (fun old => readRange (made.given key (rowCells old)) 0 cfg.embedWidthInBytes) =
      rows.newRow cfg arithmetic keys buffer key := by
    rw [← built]
    exact funext fun old => RowStep.call_given arithmetic rows buffer key old
  subst onTable
  have result := sound.lookup_eq sized kept mine covers memory key
  rw [meant] at result
  exact result

end Job

variable [LinearOrder C] [Zero C] [Add C] [Mul C]

include sized nodup real room supported calls

theorem amends (nonempty : keys ≠ []) (fits : FitsKernel cfg buffer keys.length)
    (state : DeviceState w C)
    (owned : Owned cfg state.dTags) (single : ∀ key ∈ keys, OneWay cfg table state.dTags key) :
    ∃ after, performCommit cfg arithmetic
      ⟨rows.call maxUpdateSz keys buffer, table, mapOrder, atomicOrder⟩ outcome state =
        some (.success, after) ∧ after.dTags = state.dTags ∧
      ∀ key, lookup cfg table after.dTags after.cache key =
        if key ∈ keys then (lookup cfg table state.dTags state.cache key).map
          (rows.newRow cfg arithmetic keys buffer key)
        else lookup cfg table state.dTags state.cache key := by
  let request : CommitRequest w C :=
    ⟨rows.call maxUpdateSz keys buffer, table, mapOrder, atomicOrder⟩
  let found := computeSetUpdateData cfg table keys buffer state.dTags
  have short : found.length ≤ keys.length := by
    dsimp only [found, computeSetUpdateData]
    rw [setUpdateDataKernel_eq_of_oneWay sized keys state.dTags single]
    exact (length_filterMap_le _ _).trans_eq length_zipIdx
  have inside : ¬ overrun maxUpdateSz keys.length found := by
    simp only [overrun, not_lt]
    exact (Nat.min_le_left _ _).trans (short.trans room)
  have launches : launchRefusal keys.length = none := by simp [launchRefusal, nonempty]
  obtain ⟨result, done, success⟩ :
      ∃ result, performCommit cfg arithmetic request outcome state = some result ∧
      result.1 = .success := by
    have prepared : ∀ step ∈ (updatePrepare keys.length : List (DeviceStep w C)),
        step.refusal = none := by
      simp [updatePrepare, launches]
    cases rows with
    | copy =>
      refine ⟨_, if_neg inside, runModify_succeeds outcome calls state prepared ?_⟩
      simp [memUpdateStep, tagUpdateStep]
    | accumulate updateFormat cacheFormat =>
      refine ⟨_, if_neg inside, runModify_succeeds outcome calls state prepared ?_⟩
      cases updateFormat with
      | fp16 | fp32 => simp [accumulateStep, tagUpdateStep, contextInputType, accumulateRefusal]
      | int8Scaled => exact absurd rfl supported.1
  have perm : (recorded atomicOrder maxUpdateSz found).Perm found :=
    recorded_perm request maxUpdateSz keys _ inside short
  have listedShort := perm.length_eq.trans_le short
  obtain ⟨made, built, after⟩ := performCommit_eq_job cfg arithmetic request outcome state result.2
    ⟨calls _, calls _, calls _, calls _⟩ (by rw [done, ← success])
  have amend : job cfg arithmetic request state.dTags state.dCounters =
      some (amendJob cfg arithmetic request rows
      (recorded atomicOrder maxUpdateSz found) state.dTags state.dCounters) := by
    cases rows <;> simp only [job, listed, request, RowStep.call, if_neg inside, Option.map_some,
      found] <;> rfl
  rw [amend] at built
  rw [← Option.some.inj built] at after
  have published : result.2.dTags = state.dTags := by
    rw [after]
    simp only [amendJob, request, ModifyJob.publish, ModifyJob.conceal, callTagUpdateKernel,
      callTagInvalidateKernel,
      RowStep.call_keys, take_of_length_le (listedShort.trans (le_launched32 keys.length))]
    exact amend_tags buffer sized real perm owned _ fun i absent =>
      invalidateTagKernel_absent _ _ _ _ i absent
  refine ⟨result.2, by rw [done, ← success], published, fun key => ?_⟩
  rw [published, after]
  exact amendJob_lookup arithmetic rows buffer mapOrder atomicOrder sized nodup real supported
    state.dCounters perm fits listedShort owned state.cache key

end CacheSADeviceModify

end Part

/-! ### Erasing -/

section Invalidate

variable {cfg : CacheConfig w C} {table : Nat} (sized : Sized cfg table) {tags : Tags w}
  {keys : List (BitVec w)}

/-- The entry that `invalidate` makes for a way of a key, in both classes. -/
def invalidEntry (cfg : CacheConfig w C) (key : BitVec w) (way : Nat) : ModifyEntry w :=
  ⟨fun _ => 0, 0, hashSetIdx key cfg.numSets, way, cfg.sentinelKey⟩

def clearedBy (cfg : CacheConfig w C) (table : Nat) (tags : Tags w)
    (probes : List (BitVec w × Nat)) :
    Tags w × List (ModifyEntry w) :=
  let entries := (probes.filter fun probe => Rebuilds cfg table tags probe.1 probe.2).map
    fun probe => invalidEntry cfg probe.1 probe.2
  (invalidateTagKernel entries (tableBase cfg table) cfg.sentinelKey tags, entries)

include sized

theorem invalidEntry_slot (key : BitVec w) {way : Nat} (bound : way < numWays) :
    (invalidEntry cfg key way).slot (tableBase cfg table) =
      tableBase cfg table + hashSetIdx key cfg.numSets * numWays + way :=
  ModifyEntry.slot_eq sized (sized.hash_lt key) bound

theorem computeSetInvalidateData_eq (keys : List (BitVec w)) (tags : Tags w) :
    computeSetInvalidateData cfg table keys tags = (clearedBy cfg table tags (probes keys)).2 := by
  have pairs : probes keys =
      (keys.zipIdx ×ˢ range numWays).map fun hit : (BitVec w × Nat) × Nat => (hit.1.1, hit.2) := by
    change _ = (product _ _).map _
    have names : keys = keys.zipIdx.map Prod.fst := (zipIdx_map_fst 0 keys).symm
    rw [product, map_flatMap, probes]
    conv_lhs => rw [names]
    rw [flatMap_map]
    simp only [map_map]
    rfl
  rw [computeSetInvalidateData, CacheSADeviceModify.setUpdateDataKernel_eq_map sized, clearedBy,
    pairs, filter_map,
    map_map]
  simp only [sized.wrap32_numSets]
  rfl

/-- A cleared way rebuilds nothing; a way that was cleared for one key rebuilt no other. -/
theorem rebuilds_cleared_iff {key : BitVec w} (real : RealKey cfg key) {way : Nat}
    (bound : way < numWays)
    {cleared : List (BitVec w × Nat)}
    (done : ∀ probe ∈ cleared, probe.2 < numWays ∧ Rebuilds cfg table tags probe.1 probe.2) :
    Rebuilds cfg table
        (invalidateTagKernel (cleared.map fun probe => invalidEntry cfg probe.1 probe.2)
          (tableBase cfg table)
          cfg.sentinelKey tags) key way ↔
      Rebuilds cfg table tags key way ∧ (key, way) ∉ cleared := by
  by_cases named : ∃ probe ∈ cleared,
    (invalidEntry cfg probe.1 probe.2).slot (tableBase cfg table) =
      tableBase cfg table + hashSetIdx key cfg.numSets * numWays + way
  · obtain ⟨probe, member, place⟩ := named
    have empty :=
      invalidateTagKernel_present (cleared.map fun probe => invalidEntry cfg probe.1 probe.2)
      (tableBase cfg table) cfg.sentinelKey tags _ (mem_map_of_mem member)
    rw [place] at empty
    have gone : ¬ Rebuilds cfg table (invalidateTagKernel
        (cleared.map fun probe => invalidEntry cfg probe.1 probe.2)
          (tableBase cfg table) cfg.sentinelKey tags) key way := by
      rw [Rebuilds, empty]
      exact real
    refine ⟨fun rebuilt => absurd rebuilt gone, ?_⟩
    rintro ⟨rebuilt, absent⟩
    -- the tag that was cleared for the probe rebuilds the probe's key, so it is this one
    have ways := (done probe member).1
    rw [invalidEntry_slot sized probe.1 ways] at place
    have index : hashSetIdx probe.1 cfg.numSets = hashSetIdx key cfg.numSets ∧ probe.2 = way := by
      simp only [numWays] at ways bound place
      omega
    have owner := (done probe member).2
    rw [Rebuilds, place, index.1] at owner
    have same : probe = (key, way) := Prod.ext (owner.symm.trans rebuilt) index.2
    exact absurd (same ▸ member) absent
  · have kept : invalidateTagKernel (cleared.map fun probe => invalidEntry cfg probe.1 probe.2)
        (tableBase cfg table)
        cfg.sentinelKey tags (tableBase cfg table + hashSetIdx key cfg.numSets * numWays + way) =
        tags (tableBase cfg table + hashSetIdx key cfg.numSets * numWays + way) := by
      apply invalidateTagKernel_absent
      intro entry member place
      obtain ⟨probe, inside, rfl⟩ := mem_map.mp member
      exact named ⟨probe, inside, place⟩
    have absent : (key, way) ∉ cleared := fun member =>
      named ⟨_, member, invalidEntry_slot sized key bound⟩
    rw [Rebuilds, kept]
    exact ⟨fun rebuilt => ⟨rebuilt, absent⟩, fun both => both.1⟩

/-- One comparison of the host's scan. What the scan cleared before is not looked for again. -/
theorem invalidateWay_clearedBy {before : List (BitVec w × Nat)} {probe : BitVec w × Nat}
    (fresh : probe ∉ before)
    (bounds : ∀ other ∈ before, other.2 < numWays) (real : RealKey cfg probe.1)
    (bound : probe.2 < numWays) :
    invalidateWay cfg table probe.1 (clearedBy cfg table tags before) probe.2 =
      clearedBy cfg table tags (before ++ [probe]) := by
  have done : ∀ other ∈ before.filter fun probe => Rebuilds cfg table tags probe.1 probe.2,
      other.2 < numWays ∧ Rebuilds cfg table tags other.1 other.2 := by
    intro other member
    obtain ⟨earlier, rebuilt⟩ := mem_filter.mp member
    exact ⟨bounds other earlier, of_decide_eq_true rebuilt⟩
  have absent : probe ∉ before.filter fun probe => Rebuilds cfg table tags probe.1 probe.2 :=
    fun member => fresh (mem_of_mem_filter member)
  have met := rebuilds_cleared_iff sized real bound done
  simp only [invalidateWay, sized.wrap32_offset, clearedBy, filter_append, map_append]
  by_cases rebuilt : Rebuilds cfg table tags probe.1 probe.2
  · have hit := met.mpr ⟨rebuilt, absent⟩
    rw [Rebuilds] at hit
    rw [if_pos hit, filter_cons_of_pos (by simpa using rebuilt), filter_nil, map_singleton,
      invalidateTagKernel, invalidateTagKernel, map_append, setMany_append, map_singleton,
        setMany_cons,
      setMany_nil, invalidEntry_slot sized probe.1 bound]
    rfl
  · have miss := mt met.mp fun both => rebuilt both.1
    rw [Rebuilds] at miss
    rw [if_neg miss, filter_cons_of_neg (by simpa using rebuilt), filter_nil, map_nil, append_nil]

theorem invalidateScan_eq_clearedBy (nodup : keys.Nodup) (real : ∀ key ∈ keys, RealKey cfg key) :
    invalidateScan cfg table keys tags =
      clearedBy cfg table tags (probes keys) := by
  have general : ∀ rest before : List (BitVec w × Nat), (before ++ rest).Nodup →
      (∀ probe ∈ before ++ rest, probe.1 ∈ keys ∧ probe.2 < numWays) →
      rest.foldl (fun scan probe => invalidateWay cfg table probe.1 scan probe.2)
        (clearedBy cfg table tags before) = clearedBy cfg table tags (before ++ rest) := by
    intro rest
    induction rest with
    | nil => intro before _ _; rw [append_nil]; rfl
    | cons probe rest ih =>
      intro before distinct inside
      have mine := inside probe (by simp)
      have fresh : probe ∉ before := fun member =>
        (nodup_append.mp distinct).2.2 probe member probe mem_cons_self rfl
      rw [foldl_cons, invalidateWay_clearedBy sized fresh
        (fun other member => (inside other (mem_append_left _ member)).2)
          (real probe.1 mine.1) mine.2]
      have joined : before ++ probe :: rest = before ++ [probe] ++ rest := by simp
      rw [joined] at distinct inside ⊢
      exact ih (before ++ [probe]) distinct inside
  rw [invalidateScan_eq]
  apply general (probes keys) []
  · exact nodup.product nodup_range
  · intro probe member
    exact (mem_probes _ _ _).mp member

/-- After clearing the ways of its keys a list of keys is gone, and real keys outside of it stay
found. -/
theorem findWay_cleared {key : BitVec w} (real : RealKey cfg key) :
    findWay cfg table (clearedBy cfg table tags (probes keys)).1 key =
      if key ∈ keys then none else findWay cfg table tags key := by
  have done : ∀ probe ∈ (probes keys).filter
      fun probe => Rebuilds cfg table tags probe.1 probe.2,
      probe.2 < numWays ∧ Rebuilds cfg table tags probe.1 probe.2 := by
    intro probe member
    obtain ⟨inside, rebuilt⟩ := mem_filter.mp member
    exact ⟨((mem_probes _ _ _).mp inside).2, of_decide_eq_true rebuilt⟩
  have met := fun way (bound : way < numWays) => rebuilds_cleared_iff sized real bound done
  simp only [mem_filter, mem_probes, decide_eq_true_eq] at met
  simp only [findWay, searchWays, clearedBy]
  split
  · rename_i present
    rw [find?_eq_none]
    intro way member hit
    have bound := mem_range.mp member
    obtain ⟨rebuilt, absent⟩ := (met way bound).mp (beq_iff_eq.mp hit)
    exact absent ⟨⟨present, bound⟩, rebuilt⟩
  · rename_i absent
    apply find?_congr
    intro way member
    have bound := mem_range.mp member
    have same := met way bound
    simp only [absent, false_and, not_false_eq_true, and_true] at same
    exact Bool.eq_iff_iff.mpr (beq_iff_eq.trans (same.trans beq_iff_eq.symm))

theorem clearedBy_length (single : ∀ key ∈ keys, CacheSADeviceModify.OneWay cfg table tags key) :
    (clearedBy cfg table tags (probes keys)).2.length =
      keys.countP (isResident cfg table tags) := by
  rw [← computeSetInvalidateData_eq sized, computeSetInvalidateData,
    CacheSADeviceModify.setUpdateDataKernel_eq_of_oneWay sized keys tags single,
      length_filterMap_eq_countP]
  have names : keys = keys.zipIdx.map Prod.fst := (zipIdx_map_fst 0 keys).symm
  conv_rhs => rw [names, countP_map]
  apply countP_congr
  intro hit _
  simp [isResident]

omit sized in
theorem invalidateTagKernel_perm {first second : List (ModifyEntry w)} (perm : first.Perm second)
    (base : Nat)
    (sentinel : BitVec w) (tags : Tags w) :
    invalidateTagKernel first base sentinel tags =
      invalidateTagKernel second base sentinel tags := by
  funext i
  by_cases named : ∃ entry ∈ first, entry.slot base = i
  · obtain ⟨entry, member, rfl⟩ := named
    rw [invalidateTagKernel_present _ _ _ _ entry member,
      invalidateTagKernel_present _ _ _ _ entry (perm.mem_iff.mp member)]
  · rw [invalidateTagKernel_absent _ _ _ _ i fun entry member place => named ⟨entry, member, place⟩,
      invalidateTagKernel_absent _ _ _ _ i fun entry member place =>
        named ⟨entry, perm.mem_iff.mpr member, place⟩]

variable {maxUpdateSz : Nat} {outcome : Outcome} (calls : ∀ call, outcome call = .success)

include calls

/-- `invalidate` of the host class clears the ways of its keys, if the list can hold them. -/
theorem CacheSAHostModify.invalidate_eq (arithmetic : RowArithmetic) (nodup : keys.Nodup)
    (real : ∀ key ∈ keys, RealKey cfg key) (state : HostState w C)
    (mirrored : state.hTags = state.dTags) :
    invalidate cfg arithmetic outcome table maxUpdateSz keys state =
      if maxUpdateSz < (clearedBy cfg table state.dTags (probes keys)).2.length then none
      else some (.success, { state with
        hTags := (clearedBy cfg table state.dTags (probes keys)).1
        dTags := (clearedBy cfg table state.dTags (probes keys)).1 }) := by
  simp only [invalidate, mirrored, invalidateScan_eq_clearedBy sized nodup real]
  split
  · rfl
  · have success : (modify cfg arithmetic outcome ⟨.invalidate, .fp16, .fp16⟩ table
        (clearedBy cfg table state.dTags (probes keys)).2
        { state with hTags := (clearedBy cfg table state.dTags (probes keys)).1 }).1 = .success :=
      modify_succeeds arithmetic outcome calls _ _ _ rfl
    have effect := modify_invalidated (Prod.ext success rfl) rfl
    exact congrArg some (Prod.ext success effect)

theorem CacheSADeviceModify.invalidate_eq (order : AtomicOrder w) (state : DeviceState w C)
    (single : ∀ key ∈ keys, OneWay cfg table state.dTags key) :
    invalidate cfg order outcome table maxUpdateSz keys state =
      if maxUpdateSz < (clearedBy cfg table state.dTags (probes keys)).2.length then none
      else some (if keys = [] then (.cudaError, state) else (.success, { state with
        dTags := (clearedBy cfg table state.dTags (probes keys)).1 })) := by
  have short : (clearedBy cfg table state.dTags (probes keys)).2.length ≤
      launched32 keys.length := by
    rw [clearedBy_length sized single]
    exact countP_le_length.trans (le_launched32 keys.length)
  simp only [invalidate, overrun, computeSetInvalidateData_eq sized, Nat.min_eq_left short]
  split
  · rfl
  · rename_i room
    congr 1
    have all := recorded_all order maxUpdateSz _ (not_lt.mp room)
    have perm := order.perm (clearedBy cfg table state.dTags (probes keys)).2
    have whole := take_of_length_le (perm.length_eq.trans_le short)
    have tags : (clearedBy cfg table state.dTags (probes keys)).1 = invalidateTagKernel
        (clearedBy cfg table state.dTags (probes keys)).2 (tableBase cfg table) cfg.sentinelKey
        state.dTags := rfl
    rw [all, tags]
    by_cases empty : keys = []
    · simp [runModify, updatePrepare, runSteps, GuardedStep.result, launchRefusal, calls, empty]
    · simp [runModify, updatePrepare, runSteps, GuardedStep.result, launchRefusal, calls, empty,
        invalidateTagsAndSync,
        callTagInvalidateKernel, whole, invalidateTagKernel_perm perm]

end Invalidate

/-! ### Lists in parts -/

def CacheState.Mirrored : CacheState w C → Prop
  | .host state => state.hTags = state.dTags
  | .device _ => True

def CacheState.SameTags : CacheState w C → CacheState w C → Prop
  | .host first, .host second => first.hTags = second.hTags ∧ first.dTags = second.dTags
  | .device first, .device second => first.dTags = second.dTags
  | _, _ => False

namespace GpuTable

/-- The tags of the table are those of real keys in their own sets, no key has two of them, and the
host class has the same ones on the device. -/
structure Settled (cfg : CacheConfig w C) (state : CacheState w C) : Prop where
  owned : Owned cfg state.dTags
  single : ∀ key, RealKey cfg key → CacheSADeviceModify.OneWay cfg 0 state.dTags key
  mirrored : state.Mirrored

def InKernelRange (cfg : CacheConfig w C) (buffer : RowBuffer) (numKeys : Nat) :
    CacheState w C → Prop
  | .host _ => True
  | .device _ => CacheSADeviceModify.FitsKernel cfg buffer numKeys

structure Amended (cfg : CacheConfig w C) (keys : List (BitVec w)) (newRow : BitVec w → Row → Row)
    (before after : CacheState w C) : Prop where
  tags : before.SameTags after
  rows : ∀ key, find cfg key after =
    if key ∈ keys then (find cfg key before).map (newRow key) else find cfg key before

theorem SameTags.dTags {before after : CacheState w C} (same : before.SameTags after) :
    after.dTags = before.dTags := by
  cases before with
  | host first =>
    cases after with
    | host second => exact same.2.symm
    | device second => exact same.elim
  | device first =>
    cases after with
    | host second => exact same.elim
    | device second => exact Eq.symm same

variable (state : CacheState w C)

theorem SameTags.refl : state.SameTags state := by
  cases state with
  | host state => exact ⟨rfl, rfl⟩
  | device state => rfl

theorem SameTags.trans {first second third : CacheState w C} (one : first.SameTags second)
    (two : second.SameTags third) : first.SameTags third := by
  cases first with
  | host first =>
    cases second with
    | host second =>
      cases third with
      | host third => exact ⟨one.1.trans two.1, one.2.trans two.2⟩
      | device third => exact two.elim
    | device second => exact one.elim
  | device first =>
    cases second with
    | host second => exact one.elim
    | device second =>
      cases third with
      | host third => exact two.elim
      | device third => exact Eq.trans one two

theorem SameTags.withCache (memory : Memory) : state.SameTags (state.withCache memory) := by
  cases state with
  | host state => exact ⟨rfl, rfl⟩
  | device state => rfl

theorem CacheState.cache_withCache (memory : Memory) : (state.withCache memory).cache = memory := by
  cases state <;> rfl

section Settled

variable {cfg : CacheConfig w C} {before after : CacheState w C}

theorem Settled.of_sameTags (settled : Settled cfg before) (same : before.SameTags after) :
    Settled cfg after := by
  have tags := SameTags.dTags same
  refine ⟨tags ▸ settled.owned, fun key real => tags ▸ settled.single key real, ?_⟩
  have mirrored := settled.mirrored
  cases before with
  | host first =>
    cases after with
    | host second => exact same.1.symm.trans (mirrored.trans same.2)
    | device second => trivial
  | device first =>
    cases after with
    | host second => exact same.elim
    | device second => trivial

theorem InKernelRange.of_sameTags {buffer : RowBuffer} {numKeys : Nat}
    (range : InKernelRange cfg buffer numKeys before)
    (same : before.SameTags after) : InKernelRange cfg buffer numKeys after := by
  cases after with
  | host second => trivial
  | device second =>
    cases before with
    | host first => exact same.elim
    | device first => exact range

theorem InKernelRange.mono {buffer : RowBuffer} {fewer numKeys : Nat}
    (range : InKernelRange cfg buffer numKeys before)
    (le : fewer ≤ numKeys) : InKernelRange cfg buffer fewer before := by
  cases before with
  | host state => trivial
  | device state =>
    exact ⟨range.bytes, range.forward, range.small, fun i bound =>
      range.reach i (lt_of_lt_of_le bound le)⟩

theorem Amended.refl (newRow : BitVec w → Row → Row) (state : CacheState w C) :
    Amended cfg [] newRow state state :=
  ⟨SameTags.refl state, by simp⟩

theorem Amended.append {middle : CacheState w C} {first rest : List (BitVec w)}
    {one two new : BitVec w → Row → Row}
    (front : Amended cfg first one before middle) (back : Amended cfg rest two middle after)
    (disjoint : ∀ key ∈ first, key ∉ rest) (ofFirst : ∀ key ∈ first, one key = new key)
    (ofRest : ∀ key ∈ rest, two key = new key) : Amended cfg (first ++ rest) new before after := by
  refine ⟨SameTags.trans front.tags back.tags, fun key => ?_⟩
  rw [back.rows, front.rows]
  by_cases early : key ∈ first
  · simp [early, disjoint key early, ofFirst key early]
  · by_cases late : key ∈ rest
    · simp [early, late, ofRest key late]
    · simp [early, late]

end Settled

section Parts

variable [LinearOrder C] [Zero C] [Add C] [Mul C] (config : GPUTableConfig) {cfg : CacheConfig w C}
  (arithmetic : RowArithmetic) (rows : RowStep) (buffer : RowBuffer)

/-- The cache call of one part of `update` or `update_accumulate`. -/
def amendPart (cfg : CacheConfig w C) (env : Environment w) (start : Nat) (keys : List (BitVec w)) :
    CacheState w C → Option (ECError × CacheState w C)
  | .host state => some (onHost (CacheSAHostModify.performCommit cfg arithmetic
      ⟨rows.call (maxUpdateSz config) keys (buffer.from start), 0, env.mapOrder, env.atomicOrder⟩
        env.outcome state))
  | .device state => (CacheSADeviceModify.performCommit cfg arithmetic
      ⟨rows.call (maxUpdateSz config) keys (buffer.from start), 0, env.mapOrder, env.atomicOrder⟩
        env.outcome state).map
        onDevice

theorem updatePart_eq (env : Environment w) (start : Nat) (keys : List (BitVec w)) :
    updatePart config cfg arithmetic env buffer start keys =
      amendPart config arithmetic .copy buffer cfg env start keys := by
  funext state
  cases state <;> rfl

theorem accumulatePart_eq (env : Environment w) (updateFormat cacheFormat : DataTypeFormat)
    (start : Nat)
    (keys : List (BitVec w)) :
    accumulatePart config cfg arithmetic env updateFormat cacheFormat buffer start keys =
      amendPart config arithmetic (.accumulate updateFormat cacheFormat) buffer cfg env
        start keys := by
  funext state
  cases state <;> rfl

theorem RowBuffer.from_row (start i : Nat) :
    (buffer.from start).row i = buffer.row (start + i) := by
  funext offset
  simp only [RowBuffer.row, RowBuffer.from]
  congr 1
  push_cast
  ring

variable (sized : Sized cfg 0) (supported : rows.Supported cfg.embedWidthInBytes)
  (env : Nat → Environment w)
  (calls : ∀ start call, (env start).outcome call = .success)

include sized supported calls

theorem amendPart_amends {keys : List (BitVec w)} (nodup : keys.Nodup)
    (real : ∀ key ∈ keys, RealKey cfg key)
    (nonempty : keys ≠ []) (room : keys.length ≤ maxUpdateSz config) (start : Nat)
    {state : CacheState w C}
    (settled : Settled cfg state) (range : InKernelRange cfg buffer keys.length state) :
    ∃ after, amendPart config arithmetic rows buffer cfg (env start) start keys state =
      some (.success, after) ∧
      Amended cfg keys (rows.newRow cfg arithmetic keys (buffer.from start)) state after := by
  cases state with
  | host state =>
    obtain ⟨after, done, hTags, dTags, found⟩ := amends arithmetic rows (buffer.from start)
      (env start).mapOrder (env start).atomicOrder (env start).outcome sized nodup real room
        supported (calls start)
      state (settled.mirrored ▸ settled.owned) settled.mirrored
    exact ⟨.host after, by rw [amendPart, done]; rfl, ⟨hTags.symm, dTags.symm⟩, found⟩
  | device state =>
    have fits : CacheSADeviceModify.FitsKernel cfg (buffer.from start) keys.length :=
      ⟨range.bytes, range.forward, range.small, range.reach⟩
    obtain ⟨after, done, dTags, found⟩ :=
      CacheSADeviceModify.amends arithmetic rows (buffer.from start)
      (env start).mapOrder (env start).atomicOrder (env start).outcome sized nodup real room
        supported (calls start)
      nonempty fits state settled.owned fun key present => settled.single key (real key present)
    exact ⟨.device after, by rw [amendPart, done]; rfl, Eq.symm dTags, found⟩

theorem runParts_amends {size bound : Nat} (positive : 0 < size) (fits : size ≤ maxUpdateSz config)
    (fuel start : Nat)
    {keys : List (BitVec w)} (enough : keys.length ≤ fuel) (small : min size keys.length ≤ bound)
    (nodup : keys.Nodup)
    (real : ∀ key ∈ keys, RealKey cfg key) {state : CacheState w C} (settled : Settled cfg state)
    (range : InKernelRange cfg buffer bound state) :
    ∃ after, runParts (fun start part =>
      amendPart config arithmetic rows buffer cfg (env start) start part)
        (modifyParts size fuel start keys) state = some (.success, after) ∧
      Amended cfg keys (rows.newRow cfg arithmetic keys (buffer.from start)) state after := by
  induction fuel generalizing start keys state with
  | zero =>
    have empty : keys = [] := length_eq_zero_iff.mp (by omega)
    subst empty
    exact ⟨state, rfl, Amended.refl _ state⟩
  | succ fuel ih =>
    by_cases empty : keys = []
    · subst empty
      exact ⟨state, rfl, Amended.refl _ state⟩
    · have nonempty : 0 < keys.length := length_pos_iff.mpr empty
      have split : keys = keys.take size ++ keys.drop size := (take_append_drop size keys).symm
      have front : (keys.take size).length = min size keys.length := length_take
      have back : (keys.drop size).length = keys.length - size := length_drop
      have disjoint : ∀ key ∈ keys.take size, key ∉ keys.drop size := by
        intro key early late
        rw [split, nodup_append] at nodup
        exact nodup.2.2 key early key late rfl
      obtain ⟨middle, part, amended⟩ :=
        amendPart_amends config arithmetic rows buffer sized supported env calls
        (nodup.sublist (take_sublist size keys))
          (fun key member => real key (mem_of_mem_take member))
        (by rw [← length_pos_iff]; omega) (by omega) start settled
        (range.mono (by omega))
      obtain ⟨after, later, rest⟩ :=
        ih (start + size) (by omega : (keys.drop size).length ≤ fuel) (by omega)
        (nodup.sublist (drop_sublist size keys))
          (fun key member => real key (mem_of_mem_drop member))
        (settled.of_sameTags amended.tags) (range.of_sameTags amended.tags)
      refine ⟨after, ?_, ?_⟩
      · have nonnil : keys.isEmpty = false := by simp [empty]
        simp only [modifyParts, nonnil, Bool.false_eq_true, if_false, runParts, part]
        exact later
      · have whole : Amended cfg (keys.take size ++ keys.drop size)
            (rows.newRow cfg arithmetic keys (buffer.from start)) state after := by
          apply amended.append rest disjoint
          · intro key early
            funext old
            simp only [RowStep.newRow]
            rw [split, idxOf_append_of_mem early, ← split]
          · intro key late
            have absent : key ∉ keys.take size := fun early => disjoint key early late
            have full : (keys.take size).length = size := by
              have remaining := length_pos_of_mem late
              omega
            funext old
            simp only [RowStep.newRow, RowBuffer.from_row]
            rw [split, idxOf_append_of_notMem absent, ← split, full, Nat.add_assoc]
        rwa [← split] at whole

end Parts

section NoSync

variable [LinearOrder C] [Zero C] [Add C] [Mul C] {cfg : CacheConfig w C}
  (arithmetic : RowArithmetic)
  (updateFormat cacheFormat : DataTypeFormat) (buffer : RowBuffer) (sized : Sized cfg 0)
  {keys : List (BitVec w)}

omit [LinearOrder C] [Zero C] [Add C] [Mul C] in
theorem memUpdateAccumulateKernel_congr {first second : List (ModifyEntry w)} (sz : Nat)
    (memory : Memory)
    (same : first.map (fun entry => (entry.dst, entry.src)) =
      second.map (fun entry => (entry.dst, entry.src))) :
    memUpdateAccumulateKernel arithmetic updateFormat cacheFormat first sz memory =
      memUpdateAccumulateKernel arithmetic updateFormat cacheFormat second sz memory := by
  have pairs : ∀ entries : List (ModifyEntry w),
      memUpdateAccumulateKernel arithmetic updateFormat cacheFormat entries sz memory =
        (entries.map fun entry => (entry.dst, entry.src)).foldl (fun memory pair =>
          accumulateEntry arithmetic updateFormat cacheFormat sz pair.1 pair.2 memory) memory := by
    intro entries
    rw [memUpdateAccumulateKernel, foldl_map]
  rw [pairs, pairs, same]

include sized

omit [LinearOrder C] [Zero C] [Add C] [Mul C] in
theorem hits_eq_updateHits (tags : Tags w) (keys : List (BitVec w)) :
    (keys.zipIdx.filterMap fun hit => (queryAddress cfg 0 tags hit.1).map fun address =>
        (⟨buffer.row hit.2, address, 0, 0, 0⟩ : ModifyEntry w)).map
          (fun entry => (entry.dst, entry.src)) =
      ((updateHits cfg 0 keys.length tags keys).map (updateEntry cfg 0 tags buffer)).map
        fun entry => (entry.dst, entry.src) := by
  have whole : updateHits cfg 0 keys.length tags keys = keys.zipIdx.filter fun hit =>
      isResident cfg 0 tags hit.1 := by
    rw [updateHits, take_of_length_le]
    exact (length_filter_le _ _).trans_eq length_zipIdx
  rw [whole]
  generalize keys.zipIdx = hits
  induction hits with
  | nil => rfl
  | cons hit rest ih =>
    rw [filterMap_cons, filter_cons, queryAddress_eq sized]
    cases found : findWay cfg 0 tags hit.1 with
    | none => simpa [isResident, found] using ih
    | some way =>
      simp only [isResident, found, Option.map_some, Option.isSome_some, if_true, map_cons,
        updateEntry,
        Option.getD_some] at ih ⊢
      rw [ih]

/-- `update_accumulate_no_sync` finds the rows that the host's search finds. -/
theorem accumulateNoSync_amends (mapOrder : MapOrder w) (atomicOrder : AtomicOrder w)
    (nodup : keys.Nodup) (real : ∀ key ∈ keys, RealKey cfg key) {state : CacheState w C}
    (settled : Settled cfg state)
    (supported : (RowStep.accumulate updateFormat cacheFormat).Supported cfg.embedWidthInBytes) :
    Amended cfg keys
      ((RowStep.accumulate updateFormat cacheFormat).newRow cfg arithmetic keys buffer) state
      (accumulateNoSync cfg arithmetic updateFormat cacheFormat keys buffer state) := by
  let rows := RowStep.accumulate updateFormat cacheFormat
  let request : CommitRequest w C := ⟨rows.call keys.length keys buffer, 0, mapOrder, atomicOrder⟩
  have sound :
      (job cfg arithmetic request state.dTags fun _ => 0).Sound cfg arithmetic state.dTags :=
    job_sound arithmetic request sized state.dTags (fun _ => 0) nodup real settled.owned supported.2
  have entries : (job cfg arithmetic request state.dTags fun _ => 0).entries =
      (updateHits cfg 0 keys.length state.dTags keys).map (updateEntry cfg 0 state.dTags buffer) :=
    searchTagStorageForUpdate_eq sized keys.length state.dTags buffer keys
  have written :
      (accumulateNoSync cfg arithmetic updateFormat cacheFormat keys buffer state).cache =
      (job cfg arithmetic request state.dTags fun _ => 0).write cfg arithmetic state.cache := by
    rw [sound.write_eq sized, entries, accumulateNoSync, CacheState.cache_withCache]
    refine (memUpdateAccumulateKernel_congr arithmetic updateFormat cacheFormat _ _ ?_).trans
      (memUpdateAccumulateKernel_eq arithmetic cacheFormat supported.2 _ _)
    exact hits_eq_updateHits buffer sized state.dTags keys
  have same :
      state.SameTags (accumulateNoSync cfg arithmetic updateFormat cacheFormat keys buffer state) :=
    SameTags.withCache state _
  refine ⟨same, fun key => ?_⟩
  have found := job_lookup arithmetic rows buffer mapOrder atomicOrder sized nodup real le_rfl
    supported (fun _ => 0) settled.owned state.cache key
  rw [find, SameTags.dTags same, written]
  exact found

end NoSync

/-! ### Lists of any length -/

def residents (cfg : CacheConfig w C) (keys : List (BitVec w)) (state : CacheState w C) : Nat :=
  keys.countP fun key => (find cfg key state).isSome

attribute [local instance] lawful_keys in
def Erased (cfg : CacheConfig w C) (keys : List (BitVec w)) (before after : CacheState w C) :
    Prop :=
  ∀ key, RealKey cfg key → find cfg key after = if key ∈ keys then none else find cfg key before

/-- The numbers that the source narrows to 32 bits: the size of the modify context, the key count of
a launch and the addresses of the device class. -/
structure SizesFit (config : GPUTableConfig) (cfg : CacheConfig w C) (keys : List (BitVec w))
    (buffer : RowBuffer)
    (state : CacheState w C) : Prop where
  context : 1 ≤ config.maxModifySize
  narrow : config.maxModifySize < 2 ^ 32
  counted : keys.length + 31 < 2 ^ 32
  range : InKernelRange cfg buffer (min config.maxModifySize.toNat keys.length) state

section Sizes

variable {config : GPUTableConfig} {cfg : CacheConfig w C} (sized : Sized cfg 0)
  {keys : List (BitVec w)}
  {buffer : RowBuffer} {state : CacheState w C}

theorem SizesFit.maxUpdateSz_eq (fits : SizesFit config cfg keys buffer state) :
    maxUpdateSz config = config.maxModifySize.toNat := by
  have positive := fits.context
  have narrow := fits.narrow
  rw [maxUpdateSz, Int.emod_eq_of_lt (by omega) narrow]

include sized

theorem find_isSome (key : BitVec w) :
    (find cfg key state).isSome = isResident cfg 0 state.dTags key := by
  rw [find, lookup_eq_rowAt sized, isResident, Option.isSome_map]

theorem erased_of_cleared {after : CacheState w C} (rows : after.cache = state.cache)
    (tags : after.dTags = (clearedBy cfg 0 state.dTags (probes keys)).1) :
    Erased cfg keys state after := by
  intro key real
  rw [find, find, lookup_eq_rowAt sized, lookup_eq_rowAt sized, rows, tags,
    findWay_cleared sized real]
  split <;> rfl

theorem residents_eq (settled : Settled cfg state) (real : ∀ key ∈ keys, RealKey cfg key) :
    (clearedBy cfg 0 state.dTags (probes keys)).2.length = residents cfg keys state := by
  rw [clearedBy_length sized fun key present => settled.single key (real key present), residents]
  simp only [find_isSome sized]

omit sized in
theorem Settled.shrinks {after : CacheState w C} (settled : Settled cfg state)
    (mirrored : after.Mirrored)
    (kept : ∀ i, after.dTags i = cfg.sentinelKey ∨ after.dTags i = state.dTags i) :
      Settled cfg after := by
  refine ⟨fun i used => ?_, fun key real way bound other inside one two => ?_, mirrored⟩
  · have same := (kept i).resolve_left used
    exact same ▸ settled.owned i (same ▸ used)
  · have rebuilds : ∀ way, Rebuilds cfg 0 after.dTags key way →
        Rebuilds cfg 0 state.dTags key way := by
      intro way rebuilt
      rcases kept (tableBase cfg 0 + hashSetIdx key cfg.numSets * numWays + way) with empty | same
      · rw [Rebuilds, empty] at rebuilt
        exact absurd rebuilt real
      · rwa [Rebuilds, same] at rebuilt
    exact settled.single key real way bound other inside (rebuilds way one) (rebuilds other two)

section Erase

variable (arithmetic : RowArithmetic) (env : Environment w) (context : 1 ≤ config.maxModifySize)
  (calls : ∀ call, env.outcome call = .success) (nodup : keys.Nodup)
  (real : ∀ key ∈ keys, RealKey cfg key)
  (settled : Settled cfg state)

include context calls nodup real settled

theorem erase_cases :
    (maxUpdateSz config < residents cfg keys state ∧
      erase config cfg arithmetic env keys state = none) ∨
      ∃ code after, residents cfg keys state ≤ maxUpdateSz config ∧
        erase config cfg arithmetic env keys state = some (code, after) ∧
        (keys ≠ [] → code = .success) ∧ Settled cfg after ∧ Erased cfg keys state after := by
  have given : ¬ config.maxModifySize < 1 := by omega
  rw [← residents_eq sized settled real, ← not_lt]
  cases state with
  | host state =>
    have result : invalidate cfg arithmetic env.outcome 0 (maxUpdateSz config) keys state = _ :=
      invalidate_eq sized calls arithmetic nodup real state settled.mirrored
    simp only [erase, withContext, if_neg given, result, CacheState.dTags]
    split
    · exact .inl ⟨‹_›, rfl⟩
    · exact .inr ⟨_, _, ‹_›, rfl, fun _ => rfl,
        settled.shrinks rfl (invalidateTagKernel_shrinks _ _ _ _),
        erased_of_cleared sized rfl rfl⟩
  | device state =>
    have result : CacheSADeviceModify.invalidate cfg env.atomicOrder env.outcome 0
        (maxUpdateSz config) keys state = _ :=
      CacheSADeviceModify.invalidate_eq sized calls env.atomicOrder state
        fun key present => settled.single key (real key present)
    simp only [erase, withContext, if_neg given, result, CacheState.dTags]
    split
    · exact .inl ⟨‹_›, rfl⟩
    · by_cases empty : keys = []
      · subst empty
        exact .inr ⟨_, _, ‹_›, rfl, fun nonempty => absurd rfl nonempty, settled, fun key _ => rfl⟩
      · rw [if_neg empty]
        exact .inr ⟨_, _, ‹_›, rfl, fun _ => rfl,
          settled.shrinks trivial (invalidateTagKernel_shrinks _ _ _ _),
          erased_of_cleared sized rfl rfl⟩

/-- `erase` has a defined result if and only if the modify list can hold the resident keys. -/
theorem erase_iff :
    residents cfg keys state ≤ maxUpdateSz config ↔
      ∃ code after, erase config cfg arithmetic env keys state = some (code, after) ∧
        (keys ≠ [] → code = .success) ∧ Erased cfg keys state after := by
  rcases erase_cases sized arithmetic env context calls nodup real settled with
    ⟨past, none⟩ | ⟨code, after, room, done, success, _, erased⟩
  · simp [none, past]
  · exact iff_of_true room ⟨code, after, done, success, erased⟩

end Erase

variable [LinearOrder C] [Zero C] [Add C] [Mul C] (arithmetic : RowArithmetic)
  {env : Nat → Environment w}
  (fits : SizesFit config cfg keys buffer state) (settled : Settled cfg state) (nodup : keys.Nodup)
  (real : ∀ key ∈ keys, RealKey cfg key) (calls : ∀ start call, (env start).outcome call = .success)

include fits settled nodup real calls

theorem parts_amend (rows : RowStep) (supported : rows.Supported cfg.embedWidthInBytes) :
    ∃ after, runParts (fun start part =>
      amendPart config arithmetic rows buffer cfg (env start) start part)
        (modifyParts config.maxModifySize.toNat keys.length 0 keys) state = some (.success, after) ∧
      Amended cfg keys (rows.newRow cfg arithmetic keys buffer) state after := by
  have context := fits.context
  obtain ⟨after, done, amended⟩ :=
    runParts_amends config arithmetic rows buffer sized supported env calls
    (by omega : 0 < config.maxModifySize.toNat) fits.maxUpdateSz_eq.ge keys.length 0 le_rfl le_rfl
      nodup real settled
    fits.range
  have whole : rows.newRow cfg arithmetic keys (buffer.from 0) =
      rows.newRow cfg arithmetic keys buffer := by
    funext key old
    simp only [RowStep.newRow, RowBuffer.from_row, Nat.zero_add]
  exact ⟨after, done, whole ▸ amended⟩

theorem update_amends {updateSize : Int} (size : updateSize = config.rowSizeInBytes) :
    ∃ after, GpuTable.update config cfg arithmetic env keys updateSize buffer state =
      some (.success, after) ∧
      Amended cfg keys (RowStep.copy.newRow cfg arithmetic keys buffer) state after := by
  have given : ¬ config.maxModifySize < 1 := by have := fits.context; omega
  obtain ⟨after, done, amended⟩ :=
    parts_amend sized arithmetic fits settled nodup real calls .copy trivial
  refine ⟨after, ?_, amended⟩
  simp only [GpuTable.update, size, ne_eq, not_true_eq_false, if_false, withContext, if_neg given,
    updatePart_eq]
  exact done

theorem updateAccumulate_amends {updateSize : Int} (size : updateSize = config.rowSizeInBytes)
    {updateDtype : DataType} {updateFormat cacheFormat : DataTypeFormat}
    (update : trsDataToEC updateDtype = some updateFormat)
    (value : trsDataToEC config.valueDtype = some cacheFormat)
    (whole : elementBytes updateFormat ∣ cfg.embedWidthInBytes) :
    ∃ after, updateAccumulate config cfg arithmetic env updateDtype keys updateSize buffer state =
        some (.success, after) ∧
      Amended cfg keys (sumRow cfg arithmetic updateFormat keys buffer) state after := by
  have given : ¬ config.maxModifySize < 1 := by have := fits.context; omega
  have plain := trsDataToEC_plain update
  have supported : (RowStep.accumulate updateFormat cacheFormat).Supported cfg.embedWidthInBytes :=
    ⟨plain, by rwa [WholeElements, if_neg plain]⟩
  have accepted : accumulateRefusal updateFormat = none := by
    cases updateFormat with
    | fp16 | fp32 => rfl
    | int8Scaled => exact absurd rfl plain
  rw [← newRow_eq_sumRow arithmetic plain cacheFormat]
  by_cases empty : keys = []
  · subst empty
    exact ⟨state, rfl, Amended.refl _ state⟩
  · have nonempty : keys.isEmpty = false := by simp [empty]
    simp only [updateAccumulate, nonempty, Bool.false_eq_true, if_false, size, ne_eq,
      not_true_eq_false, update, value,
      accepted, calls, if_true, withContext, if_neg given, accumulatePart_eq]
    split
    · exact ⟨_, rfl, accumulateNoSync_amends arithmetic updateFormat cacheFormat buffer sized
        (env 0).mapOrder
        (env 0).atomicOrder nodup real settled supported⟩
    · exact parts_amend sized arithmetic fits settled nodup real calls
        (.accumulate updateFormat cacheFormat) supported

omit arithmetic in
/-- The kernel adds in the type of the update: the sums are those of the table's type, whatever the
arithmetic, exactly if the types agree or there is nothing to add to. -/
theorem updateAccumulate_sums_iff {updateSize : Int} (size : updateSize = config.rowSizeInBytes)
    {updateDtype : DataType} {updateFormat cacheFormat : DataTypeFormat}
    (update : trsDataToEC updateDtype = some updateFormat)
    (value : trsDataToEC config.valueDtype = some cacheFormat)
    (whole : elementBytes updateFormat ∣ cfg.embedWidthInBytes) :
    (∀ arithmetic, ∃ after,
      updateAccumulate config cfg arithmetic env updateDtype keys updateSize buffer state =
        some (.success, after) ∧
      Amended cfg keys (sumRow cfg arithmetic cacheFormat keys buffer) state after) ↔
      updateFormat = cacheFormat ∨ residents cfg keys state = 0 ∨ cfg.embedWidthInBytes = 0 := by
  have made := fun arithmetic =>
    updateAccumulate_amends sized arithmetic fits settled nodup real calls size update value whole
  constructor
  · intro sums
    by_contra fails
    simp only [not_or] at fails
    obtain ⟨mixed, some, wide⟩ := fails
    -- an arithmetic that tells the two formats apart
    let arithmetic : RowArithmetic :=
      ⟨fun format _ _ _ => if format = cacheFormat then 1 else 0, fun _ _ _ _ => 0⟩
    obtain ⟨after, done, meant⟩ := sums arithmetic
    obtain ⟨same, again, amended⟩ := made arithmetic
    cases done.symm.trans again
    obtain ⟨key, present, resident⟩ := countP_pos_iff.mp (Nat.pos_of_ne_zero some)
    obtain ⟨old, found⟩ := Option.isSome_iff_exists.mp resident
    have rows := (meant.rows key).symm.trans (amended.rows key)
    simp only [if_pos present, found, Option.map_some, Option.some.injEq] at rows
    have first := congrArg (fun row : Row => row[0]?) rows
    simp [sumRow, readRange, RowArithmetic.elementSum, arithmetic, Nat.pos_of_ne_zero wide,
      mixed] at first
  · intro agree arithmetic
    obtain ⟨after, done, amended⟩ := made arithmetic
    refine ⟨after, done, amended.tags, fun key => ?_⟩
    rw [amended.rows]
    rcases agree with rfl | none | narrow
    · rfl
    · by_cases present : key ∈ keys
      · have absent := mt (fun found => countP_pos_iff.mpr ⟨key, present, found⟩) (by omega :
          ¬ 0 < residents cfg keys state)
        rw [Bool.not_eq_true, Option.isSome_eq_false_iff, Option.isNone_iff_eq_none] at absent
        simp only [absent, Option.map_none]
      · simp only [if_neg present]
    · have rows : ∀ format, sumRow cfg arithmetic format keys buffer key = fun _ => [] := by
        intro format
        funext old
        rw [sumRow, narrow]
        rfl
      rw [rows, rows]

end Sizes

def oneByOne (modifyOnGpu : Bool) : GPUTableConfig :=
  { smallConfig 112 (-1) with
    maxModifySize := 1, valueDtype := .float16, modifyOnGpu := modifyOnGpu }

def holdsFive : Tags 64 := fun i => if i = 0 then 5 else -1

theorem smallCache_sized : Sized (smallCache 1 (-1)) 0 :=
  ⟨by decide, by decide, by decide, by decide, by decide⟩

def onlyFive : CacheState 64 Nat := .device ⟨holdsFive, fun _ => 0, fun _ => 0⟩

/-- One set in which at most the first way is used. -/
theorem settled_of_first {cfg : CacheConfig w C} (sized : Sized cfg 0) (single : cfg.numSets = 1)
    (marker : cfg.sentinelKey = -1) {owner : BitVec w} (nonnegative : NonNegative owner)
    {state : CacheState w C}
    (tags : state.dTags = fun i => if i = 0 then owner else -1) (mirrored : state.Mirrored) :
      Settled cfg state := by
  have only : ∀ key : BitVec w, hashSetIdx key 1 = 0 := fun key =>
    Nat.lt_one_iff.mp (hashSetIdx_lt key 1 (by decide))
  refine ⟨fun i used => ?_, fun key real way bound other inside first second => ?_, mirrored⟩
  · rw [tags, marker] at used
    simp only [ne_eq, ite_eq_right_iff, not_forall] at used
    obtain ⟨rfl, _⟩ := used
    refine ⟨owner, RealKey.of_nonNegative sized marker nonnegative, by simp [single, only], ?_⟩
    simp [tags, constructTag, single]
  · have zero : ∀ way, Rebuilds cfg 0 state.dTags key way → way = 0 := by
      intro way rebuilt
      by_contra nonzero
      apply real
      simpa [Rebuilds, tags, single, only, tableBase, nonzero, marker] using rebuilt
    rw [zero way first, zero other second]

theorem settled_five : Settled (smallCache 1 (-1)) onlyFive :=
  settled_of_first smallCache_sized rfl rfl (by decide : NonNegative (5 : BitVec 64)) rfl trivial

theorem five_seven_real : ∀ key ∈ [(5 : BitVec 64), 7], RealKey (smallCache 1 (-1)) key := by
  intro key present
  apply RealKey.of_nonNegative smallCache_sized rfl
  simp only [mem_cons, not_mem_nil, or_false] at present
  rcases present with rfl | rfl <;> simp [NonNegative]

def afterTwoInserts (modifyOnGpu : Bool) : Option (ECError × CacheState 64 Nat) :=
  let insertKey (key : BitVec 64) :=
    insert (oneByOne modifyOnGpu) (smallCache 1 (-1)) addBytes (fun _ _ => 1)
    inOrder quietEnvironment [key] 2 ⟨fun _ => UInt8.ofNat key.toNat, 2⟩
  (insertKey 5 (init (oneByOne modifyOnGpu) (smallCache 1 (-1)) fun _ => 0)).bind fun first =>
    insertKey 7 first.2

section Calls

variable (config : GPUTableConfig) (cfg : CacheConfig w C) (arithmetic : RowArithmetic)
  [LinearOrder C] [Zero C] [Add C] [Mul C] {before after last : CacheState w C}

attribute [local instance] lawful_keys in
/-- What `update` and `erase` make of a key's row; the runs below have no other call. -/
def TableRequest.change (key : BitVec w) (row : Option Row) (request : TableRequest w) :
    Option Row :=
  match request.call with
  | .update keys _ buffer => if key ∈ keys then
    row.map (RowStep.copy.newRow cfg arithmetic keys buffer key)
    else row
  | .erase keys => if key ∈ keys then none else row
  | _ => none

/-- No CUDA call fails, the keys are real and different, and the sizes fit. -/
structure Returns (share : Nat → Nat → C) (before : CacheState w C) (request : TableRequest w)
    (after : CacheState w C) :
    Prop where
  calls : ∀ i call, (request.env i).outcome call = .success
  fits : match request.call with
    | .update keys size buffer => (keys.Nodup ∧ ∀ key ∈ keys, RealKey cfg key) ∧
      size = config.rowSizeInBytes ∧
      SizesFit config cfg keys buffer before
    | .erase keys => (keys.Nodup ∧ ∀ key ∈ keys, RealKey cfg key) ∧ 1 ≤ config.maxModifySize
    | _ => False
  done : perform config cfg arithmetic share request before = some (.success, after)

variable {config cfg arithmetic} {share : Nat → Nat → C} (sized : Sized cfg 0)
  (settled : Settled cfg before)

include sized settled

theorem Returns.change {request : TableRequest w}
    (returned : Returns config cfg arithmetic share before request after) :
    Settled cfg after ∧ ∀ key, RealKey cfg key →
      find cfg key after = request.change cfg arithmetic key (find cfg key before) := by
  obtain ⟨calls, fits, done⟩ := returned
  obtain ⟨call, binOrder, env⟩ := request
  cases call with
  | clear | insert | updateAccumulate => cases fits
  | erase keys =>
    rcases erase_cases sized arithmetic (env 0) fits.2 (calls 0) fits.1.1 fits.1.2 settled with
      ⟨_, none⟩ | ⟨_, _, _, same, _, changed⟩
    · cases done.symm.trans none
    · cases done.symm.trans same
      exact changed
  | update keys size buffer =>
    obtain ⟨⟨nodup, real⟩, rfl, fits⟩ := fits
    obtain ⟨_, same, amended⟩ := update_amends sized arithmetic fits settled nodup real calls rfl
    cases done.symm.trans same
    exact ⟨settled.of_sameTags amended.tags, fun key _ => amended.rows key⟩

/-- Whatever updates and erasures follow each other, in either class: the tags stay in order and a
lookup gives what the calls made of the key's row. -/
theorem calls_refine_rows {requests : List (TableRequest w)}
    (run : Run (Returns config cfg arithmetic share) before requests last) :
    Settled cfg last ∧ ∀ key, RealKey cfg key →
      find cfg key last = requests.foldl (TableRequest.change cfg arithmetic key)
        (find cfg key before) := by
  induction run with
  | done state => exact ⟨settled, fun _ _ => rfl⟩
  | step taken _ ih =>
    obtain ⟨next, rows⟩ := taken.change sized settled
    obtain ⟨still, later⟩ := ih next
    exact ⟨still, fun key real => by rw [later key real, rows key real, foldl_cons]⟩

end Calls

def updateFive : TableRequest 64 :=
  ⟨.update [5] 2 ⟨fun _ => 3, 2⟩, inOrder, fun _ => quietEnvironment⟩

def eraseFive : TableRequest 64 := ⟨.erase [5], inOrder, fun _ => quietEnvironment⟩

/-- Key 5 is found with the row of the update and no longer after the erasure. -/
theorem calls_refine_rows_erased :
    ∃ middle last, Run (Returns (oneByOne true) (smallCache 1 (-1)) addBytes fun _ _ => 1) onlyFive
        [updateFive] middle ∧ find (smallCache 1 (-1)) 5 middle = some [3, 3] ∧
      Run (Returns (oneByOne true) (smallCache 1 (-1)) addBytes fun _ _ => 1) middle
        [eraseFive] last ∧
      find (smallCache 1 (-1)) 5 last = none := by
  have five := five_seven_real 5 mem_cons_self
  have real := forall_mem_singleton.mpr five
  have fits : SizesFit (oneByOne true) (smallCache 1 (-1)) [5] ⟨fun _ => 3, 2⟩ onlyFive :=
    ⟨by decide, by decide, by decide, by decide, by decide, by decide, by decide⟩
  obtain ⟨middle, updated, _⟩ :=
    update_amends smallCache_sized addBytes fits settled_five (by decide)
    real (fun _ _ => rfl : ∀ i call, (updateFive.env i).outcome call = .success)
    (rfl : (2 : Int) = (oneByOne true).rowSizeInBytes)
  have first : Run (Returns _ _ addBytes fun _ _ => 1) onlyFive [updateFive] middle :=
    .step ⟨fun _ _ => rfl, ⟨⟨by decide, real⟩, rfl, fits⟩, updated⟩ (.done _)
  have one := calls_refine_rows smallCache_sized settled_five first
  obtain ⟨code, last, erased, success, _⟩ := (erase_iff smallCache_sized addBytes quietEnvironment
    (by decide : 1 ≤ (oneByOne true).maxModifySize) (fun _ => rfl) (by decide) real one.1).mp
      countP_le_length
  cases success (cons_ne_nil 5 [])
  have second : Run (Returns _ _ addBytes fun _ _ => 1) middle [eraseFive] last :=
    .step ⟨fun _ _ => rfl, ⟨⟨by decide, real⟩, by decide⟩, erased⟩ (.done _)
  have two := calls_refine_rows smallCache_sized one.1 second
  have before : find (smallCache 1 (-1)) 5 onlyFive = some [0, 0] := by decide +kernel
  refine ⟨middle, last, first, ?_, second, ?_⟩
  · rw [one.2 5 five, before]
    decide +kernel
  · rw [two.2 5 five]
    simp [TableRequest.change, eraseFive]

end GpuTable

end EmbedCache
