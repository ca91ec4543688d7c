import EmbedCache.ModifyJobs

/-! Under which conditions the jobs of the modify operations are sound. -/

namespace EmbedCache

open Lib List CommitCall

variable {w : Nat} {C : Type*}

def RealKey (cfg : CacheConfig w C) (key : BitVec w) : Prop :=
  constructKey cfg.sentinelKey (hashSetIdx key cfg.numSets) cfg.numSets ≠ key

instance (cfg : CacheConfig w C) (key : BitVec w) : Decidable (RealKey cfg key) :=
  inferInstanceAs (Decidable (_ ≠ _))

def Owned (cfg : CacheConfig w C) (tags : Tags w) : Prop :=
  ∀ i, tags i ≠ cfg.sentinelKey → ∃ key, RealKey cfg key ∧
    hashSetIdx key cfg.numSets = i / numWays % cfg.numSets ∧ tags i = constructTag key cfg.numSets

section Keys

variable {cfg : CacheConfig w C} {table : Nat}

theorem setOf_index (set way : Nat) (bound : set < cfg.numSets) (inside : way < numWays) :
    (tableBase cfg table + set * numWays + way) / numWays % cfg.numSets = set := by
  have quotient : (tableBase cfg table + set * numWays + way) / numWays =
      table * cfg.numSets + set := by
    simp only [tableBase, numWays] at inside ⊢
    omega
  rw [quotient, Nat.mul_add_mod', Nat.mod_eq_of_lt bound]

variable (sized : Sized cfg table)

include sized

theorem RealKey.of_nonNegative (marker : cfg.sentinelKey = -1) {key : BitVec w}
    (nonnegative : NonNegative key) :
    RealKey cfg key := by
  rw [RealKey, marker]
  exact emptyMarker_not_nonNegative key cfg.numSets sized.positive sized.sets_fit
    sized.room nonnegative

theorem rebuilt_owner {tag owner key : BitVec w} (isTag : tag = constructTag owner cfg.numSets)
    (sets : hashSetIdx owner cfg.numSets = hashSetIdx key cfg.numSets)
    (rebuilt : constructKey tag (hashSetIdx key cfg.numSets) cfg.numSets = key) : owner = key := by
  rw [isTag, ← sets, constructKey_constructTag_hash owner cfg.numSets sized.sets_fit sized.positive]
    at rebuilt
  exact rebuilt

theorem Owned.tag_of_rebuilt {tags : Tags w} (owned : Owned cfg tags) {key : BitVec w}
    (real : RealKey cfg key)
    (way : Nat) (inside : way < numWays)
    (rebuilt : constructKey
      (tags (tableBase cfg table + hashSetIdx key cfg.numSets * numWays + way))
      (hashSetIdx key cfg.numSets) cfg.numSets = key) :
    tags (tableBase cfg table + hashSetIdx key cfg.numSets * numWays + way) =
      constructTag key cfg.numSets := by
  have used : tags (tableBase cfg table + hashSetIdx key cfg.numSets * numWays + way) ≠
      cfg.sentinelKey := by
    intro empty
    rw [empty] at rebuilt
    exact real rebuilt
  rcases owned _ used with ⟨owner, _, set, tag⟩
  rw [setOf_index _ _ (sized.hash_lt key) inside] at set
  rw [tag, rebuilt_owner sized tag set rebuilt]

end Keys

structure ModifyJob.Places (cfg : CacheConfig w C) (arithmetic : RowArithmetic)
    (job : ModifyJob w C)
    (entry : ModifyEntry w) (key : BitVec w) : Prop where
  real : RealKey cfg key
  set : entry.set = hashSetIdx key cfg.numSets
  way : entry.way < numWays
  tag : entry.tag = constructTag key cfg.numSets
  dst : entry.dst = entry.slot (tableBase cfg job.table) * cfg.embedWidthInBytes
  meant : ∀ old, job.rows.result arithmetic cfg.embedWidthInBytes old entry.src = job.given key old

structure ModifyJob.Sound (cfg : CacheConfig w C) (arithmetic : RowArithmetic) (job : ModifyJob w C)
    (tags : Tags w) : Prop where
  short : job.entries.length ≤ job.launched
  placed : ∀ entry ∈ job.entries, ∃ key, job.Places cfg arithmetic entry key
  nodup : (job.entries.map (ModifyEntry.slot (tableBase cfg job.table))).Nodup
  tags : job.tags = tagUpdateKernel job.entries (tableBase cfg job.table) tags
  whole : job.rows.Whole cfg.embedWidthInBytes

variable {entry : ModifyEntry w}

theorem ModifyEntry.slot_eq {cfg : CacheConfig w C} {table : Nat} (sized : Sized cfg table)
    (set : entry.set < cfg.numSets) (way : entry.way < numWays) :
    entry.slot (tableBase cfg table) = tableBase cfg table + entry.set * numWays + entry.way := by
  have names : entry.Names ((⟨entry.set, set⟩, ⟨entry.way, way⟩) : CacheSlot cfg) := ⟨rfl, rfl⟩
  exact names.slot_eq sized

section Write

variable {cfg : CacheConfig w C} {arithmetic : RowArithmetic} {job : ModifyJob w C} {tags : Tags w}
  {key : BitVec w}

theorem ModifyJob.Places.slot_set (sized : Sized cfg job.table)
    (places : job.Places cfg arithmetic entry key) :
    hashSetIdx key cfg.numSets = entry.slot (tableBase cfg job.table) / numWays % cfg.numSets := by
  have set : entry.set < cfg.numSets := places.set ▸ sized.hash_lt key
  rw [ModifyEntry.slot_eq sized set places.way, setOf_index _ _ set places.way, places.set]

theorem ModifyJob.Places.key_eq (sized : Sized cfg job.table)
    (places : job.Places cfg arithmetic entry key) :
    constructKey entry.tag entry.set cfg.numSets = key := by
  rw [places.tag, places.set]
  exact constructKey_constructTag_hash key cfg.numSets sized.sets_fit sized.positive

variable (sized : Sized cfg job.table) (sound : job.Sound cfg arithmetic tags)

include sized sound

variable (memory : Memory)

theorem ModifyJob.Sound.write_eq :
    job.write cfg arithmetic memory =
      rewriteRows (job.rows.result arithmetic cfg.embedWidthInBytes) job.entries
        cfg.embedWidthInBytes memory := by
  have whole := sound.whole
  unfold ModifyJob.write
  cases rows : job.rows with
  | copy =>
    simp only [callMemUpdateKernel_eq_rewriteRows, sized.wrap32_width,
      take_of_length_le sound.short,
      RowStep.result]
  | accumulate updateFormat cacheFormat =>
    rw [rows] at whole
    simp only [callMemUpdateAccumulateKernel, sized.wrap32_width, take_of_length_le sound.short]
    exact memUpdateAccumulateKernel_eq arithmetic cacheFormat whole job.entries memory

omit sized in
theorem ModifyJob.Sound.dst (entry : ModifyEntry w) (member : entry ∈ job.entries) :
    entry.dst = entry.slot (tableBase cfg job.table) * cfg.embedWidthInBytes := by
  rcases sound.placed entry member with ⟨key, places⟩
  exact places.dst

theorem ModifyJob.Sound.write_row (member : entry ∈ job.entries)
    (places : job.Places cfg arithmetic entry key)
    (i : Nat) (bound : i < cfg.embedWidthInBytes) :
    job.write cfg arithmetic memory
      (entry.slot (tableBase cfg job.table) * cfg.embedWidthInBytes + i) =
      job.given key (rowBytes memory (entry.slot (tableBase cfg job.table) * cfg.embedWidthInBytes)
        cfg.embedWidthInBytes) i := by
  rw [sound.write_eq sized, ← places.dst, rewriteRows_row (tableBase cfg job.table) _ _ _ _
    sound.dst sound.nodup entry member i bound, places.meant]

theorem ModifyJob.Sound.write_frame (a : Nat) (outside : ¬ job.Stores cfg a) :
    job.write cfg arithmetic memory a = memory a := by
  rw [sound.write_eq sized]
  apply rewriteRows_untouched
  intro entry member
  by_contra inside
  exact outside ⟨entry, member, by rw [sized.wrap32_width]; omega⟩

theorem ModifyJob.Sound.not_stores {slot i : Nat} (free : slot ∉ job.slots cfg)
    (bound : i < cfg.embedWidthInBytes) :
    ¬ job.Stores cfg (slot * cfg.embedWidthInBytes + i) := by
  intro ⟨entry, member, lower, upper⟩
  rw [sized.wrap32_width, sound.dst entry member] at upper
  rw [sound.dst entry member] at lower
  have apart : entry.slot (tableBase cfg job.table) ≠ slot := fun same => free ⟨entry, member, same⟩
  rcases outside_row bound apart with before | behind <;> omega

omit sized in
theorem ModifyJob.Sound.conceal_eq (current : Tags w) :
    job.conceal cfg current =
      invalidateTagKernel job.entries (tableBase cfg job.table) cfg.sentinelKey current := by
  rw [ModifyJob.conceal, callTagInvalidateKernel,
    take_of_length_le (sound.short.trans (le_launched32 job.launched))]

omit sized in
theorem ModifyJob.Sound.publish_eq (current : Tags w) :
    job.publish cfg current = tagUpdateKernel job.entries (tableBase cfg job.table) current := by
  rw [ModifyJob.publish, callTagUpdateKernel,
    take_of_length_le (sound.short.trans (le_launched32 job.launched))]

end Write

theorem itemRow_of_mem {items : List (InsertItem w C)} (nodup : (items.map InsertItem.key).Nodup)
    {item : InsertItem w C} (member : item ∈ items) : itemRow items item.key = item.data := by
  rw [itemRow]
  cases found : items.find? fun other => decide (other.key = item.key) with
  | none =>
    have absent := List.find?_eq_none.mp found item member
    simp at absent
  | some other =>
    have same := List.find?_some found
    have equal :=
      inj_on_of_nodup_map nodup (mem_of_find?_eq_some found) member (by simpa using same)
    rw [equal]

section Host

variable [LinearOrder C] [Add C] [Mul C] {cfg : CacheConfig w C} (arithmetic : RowArithmetic)
  (request : CommitRequest w C) (sized : Sized cfg request.table) (tags : Tags w)
  (counters : Nat → C)
  (nodup : request.call.keys.Nodup) (real : ∀ key ∈ request.call.keys, RealKey cfg key)

namespace CacheSAHostModify

include sized

include nodup real

omit [LinearOrder C] [Add C] [Mul C] in
theorem hits_sound (owned : Owned cfg tags) (maxUpdateSz : Nat) (buffer : RowBuffer)
    (job : ModifyJob w C)
    (table : job.table = request.table)
    (entries : job.entries =
      searchTagStorageForUpdate cfg request.table maxUpdateSz tags buffer 0 request.call.keys [])
    (launched : job.launched = job.entries.length) (kept : job.tags = tags)
    (meant : ∀ key old, job.given key old =
      job.rows.result arithmetic cfg.embedWidthInBytes old
        (buffer.row (request.call.keys.idxOf key)))
    (whole : job.rows.Whole cfg.embedWidthInBytes) :
    job.Sound cfg arithmetic tags := by
  refine ⟨launched.ge, ?_, ?_, ?_, whole⟩
  · intro entry member
    rw [entries, searchTagStorageForUpdate_eq sized] at member
    rcases mem_map.mp member with ⟨hit, inside, rfl⟩
    rcases mem_updateHits nodup inside with ⟨present, position, resident⟩
    rcases updateEntry_rebuilds sized tags buffer hit resident with ⟨way, names, rebuilt⟩
    have place := names.slot_eq sized
    refine ⟨hit.1, real _ present, rfl, ?_, ?_, ?_, ?_⟩
    · rw [names.2]
      exact (CacheSlot.ofKey sized hit.1 way).2.isLt
    · rw [updateEntry_own sized tags buffer hit resident, place]
      exact owned.tag_of_rebuilt sized (real _ present) way way.isLt rebuilt
    · have found : (findWay cfg request.table tags hit.1).getD 0 = way := names.2
      change (tableBase cfg request.table + hashSetIdx hit.1 cfg.numSets * numWays +
        (findWay cfg request.table tags hit.1).getD 0) * cfg.embedWidthInBytes = _
      rw [found, table]
      exact congrArg (· * cfg.embedWidthInBytes) place.symm
    · intro old
      rw [meant, ← position]
      rfl
  · rw [entries, table, searchTagStorageForUpdate_eq sized]
    exact updateEntries_nodup sized maxUpdateSz tags _ buffer nodup
  · rw [kept, entries, table, searchTagStorageForUpdate_eq sized]
    refine (tagUpdateKernel_own _ _ tags tags ?_ fun _ _ => rfl).symm
    intro entry member
    rcases mem_map.mp member with ⟨hit, inside, rfl⟩
    exact updateEntry_own sized tags buffer hit (mem_updateHits nodup inside).2.2

theorem job_sound (owned : Owned cfg tags) (whole : request.call.rows.Whole cfg.embedWidthInBytes) :
    (job cfg arithmetic request tags counters).Sound cfg arithmetic tags := by
  cases call : request.call with
  | insert maxUpdateSz items =>
    have listed :=
      insertScan_listed sized maxUpdateSz items tags (decayCounters cfg request.table counters)
    simp only [call, CommitCall.keys] at nodup real
    have entries : (job cfg arithmetic request tags counters).entries =
        (request.mapOrder.iterate (insertScan cfg request.table maxUpdateSz items
          ⟨tags, decayCounters cfg request.table counters, []⟩).insertMap).map Prod.snd := by
      simp only [job, CacheSAHostModify.listed, call]
    refine ⟨le_refl _, ?_, ?_, ?_, whole⟩
    · intro entry member
      rw [entries] at member
      rcases listed.mem_entries request.mapOrder entry
        member with ⟨slot, item, present, rfl, set, _⟩
      refine ⟨item.key, real _ (mem_map_of_mem present), set.symm, slot.2.isLt, rfl, ?_, ?_⟩
      · exact listed.entries_dst sized request.mapOrder _ member
      · intro old
        simp only [job, call, rows, given, RowStep.result, itemRow_of_mem nodup present]
        rfl
    · rw [entries]
      exact listed.entries_nodup sized request.mapOrder
    · have published := listed.republished sized request.mapOrder
      rw [entries, ← tagUpdateKernel_congr _ _ _ tags
        (fun i absent => invalidateTagKernel_absent _ _ _ _ i absent)]
      simp only [job, CacheSAHostModify.listed, call]
      exact published.symm
  | update maxUpdateSz keys buffer | updateAccumulate maxUpdateSz _ _ keys buffer =>
    apply hits_sound arithmetic request sized tags nodup real owned maxUpdateSz buffer _ rfl
    · simp only [job, CacheSAHostModify.listed, call, CommitCall.keys]
    · rfl
    · simp only [job, CacheSAHostModify.listed, call]
    · intro key old
      simp only [job, call, given, rows, RowStep.result, CommitCall.keys]
    · exact whole

end CacheSAHostModify

end Host

section Device

variable [LinearOrder C] [Zero C] [Add C] [Mul C] {cfg : CacheConfig w C}

/-- The condition under which the kernels of a call stay in the range of their arithmetic and a
call lists no more ways than it has keys. -/
def CommitCall.InRange (cfg : CacheConfig w C) (table : Nat) (tags : Tags w) : CommitCall w C → Prop
  | .insert _ items => items.length ≤ 2 ^ 24 ∧ ∀ item ∈ items, 0 ≤ item.priority
  | .update _ keys buffer | .updateAccumulate _ _ _ keys buffer =>
    cfg.numSets * numWays * cfg.embedWidthInBytes ≤ 2 ^ 32 ∧
    0 ≤ buffer.stride ∧ buffer.stride < 2 ^ 32 ∧ (∀ i < keys.length, i * buffer.stride < 2 ^ 32) ∧
    (computeSetUpdateData cfg table keys buffer tags).length ≤ keys.length

variable (arithmetic : RowArithmetic) (request : CommitRequest w C)
  (sized : Sized cfg request.table) (tags : Tags w)
  (counters : Nat → C) (nodup : request.call.keys.Nodup)
  (real : ∀ key ∈ request.call.keys, RealKey cfg key)

namespace CacheSADeviceModify

include sized nodup real

omit [LinearOrder C] [Zero C] [Add C] [Mul C] in
theorem hits_sound (buffer : RowBuffer) (job : ModifyJob w C)
    (bytes : cfg.numSets * numWays * cfg.embedWidthInBytes ≤ 2 ^ 32) (forward : 0 ≤ buffer.stride)
    (small : buffer.stride < 2 ^ 32)
    (reach : ∀ i < request.call.keys.length, i * buffer.stride < 2 ^ 32)
    (table : job.table = request.table)
    (entries : job.entries.Perm
      (computeSetUpdateData cfg request.table request.call.keys buffer tags))
    (short : job.entries.length ≤ job.launched)
    (published : job.tags = tagUpdateKernel job.entries (tableBase cfg request.table) tags)
    (meant : ∀ key old, job.given key old =
      job.rows.result arithmetic cfg.embedWidthInBytes old
        (buffer.row (request.call.keys.idxOf key)))
    (whole : job.rows.Whole cfg.embedWidthInBytes) :
    job.Sound cfg arithmetic tags := by
  refine ⟨short, ?_, ?_, by rw [published, table], whole⟩
  · intro entry member
    rcases (mem_setUpdateDataKernel sized).mp
      (entries.mem_iff.mp member) with ⟨hit, inside, way, bound, rebuilt, rfl⟩
    have position := mem_zipIdx_iff_getElem?.mp inside
    rcases List.getElem?_eq_some_iff.mp position with ⟨less, value⟩
    have present : hit.1 ∈ request.call.keys := value ▸ getElem_mem less
    have offset := wrap32_of_lt (rowOffset_lt sized bytes hit.1 bound)
    refine ⟨hit.1,
      real _ present, by rw [sized.wrap32_numSets], bound, by rw [sized.wrap32_numSets], ?_, ?_⟩
    · simp only [sized.wrap32_numSets, sized.wrap32_width, offset]
      rw [table, ModifyEntry.slot_eq sized (sized.hash_lt hit.1) bound,
        Nat.add_assoc (tableBase cfg request.table),
        Nat.add_mul (tableBase cfg request.table)]
    · intro old
      rw [meant, ← value, nodup.idxOf_getElem,
        row32_eq_row buffer hit.2 forward small (reach hit.2 less)]
  · rw [table, List.Perm.nodup_iff (entries.map _)]
    apply setUpdateDataKernel_nodup sized nodup
    intro key i way bound
    simp only [sized.wrap32_numSets]
    exact ModifyEntry.slot_eq sized (sized.hash_lt key) bound

variable (laws : SetWork.CounterLaws C) (decay : 0 ≤ cfg.decayRate) (nonneg : ∀ i, 0 ≤ counters i)

include laws decay nonneg

theorem insert_sound (maxUpdateSz : Nat) (items : List (InsertItem w C)) (job : ModifyJob w C)
    (call : request.call = .insert maxUpdateSz items) (few : items.length ≤ 2 ^ 24)
    (priorities : ∀ item ∈ items, 0 ≤ item.priority) (table : job.table = request.table)
    (entries : job.entries.Perm (computeSetReplaceData cfg request.table items tags counters).1)
    (launched : job.launched = items.length)
    (published : job.tags = tagUpdateKernel job.entries (tableBase cfg request.table) tags)
    (meant : ∀ key old, job.rows.result arithmetic cfg.embedWidthInBytes old (itemRow items key) =
      job.given key old) (whole : job.rows.Whole cfg.embedWidthInBytes) :
    job.Sound cfg arithmetic tags := by
  have plan := replaceEntries_eq_replacements sized items tags counters
  rw [plan] at entries
  have kept := groupBySet_exact sized items tags counters few
  have length := replacements_length sized items tags counters laws decay nonneg priorities kept
  simp only [call, CommitCall.keys] at nodup real
  have slotOf : ∀ placed : CacheSlot cfg × Nat,
      (insertEntry cfg request.table (itemAt items placed.2) placed.1).slot
        (tableBase cfg request.table) =
        placed.1.index request.table := fun placed =>
          (insertEntry_names request.table _ placed.1).slot_eq sized
  refine ⟨?_, ?_, ?_, by rw [published, table], whole⟩
  · rw [entries.length_eq, length_map, launched]
    exact length
  · intro entry member
    rcases mem_map.mp (entries.mem_iff.mp member) with ⟨placed, planned, rfl⟩
    rcases replacements_fresh sized items tags counters laws decay nonneg priorities kept placed
      planned with ⟨bound, set, _⟩
    have present := itemAt_mem items placed.2 bound
    refine ⟨(itemAt items placed.2).key, real _ (mem_map_of_mem present), set.symm, placed.1.2.isLt,
      rfl, ?_, ?_⟩
    · rw [table, slotOf placed]
      rfl
    · intro old
      rw [← meant, itemRow_of_mem nodup present]
      rfl
  · rw [table, List.Perm.nodup_iff (entries.map _), map_map]
    have slots := replacements_slots_nodup sized items tags counters
    have indices := slots.map (f := CacheSlot.index request.table) fun _ _ same =>
      CacheSlot.index_injective same
    rw [map_map] at indices
    convert indices using 2
    funext placed
    exact slotOf placed

omit [Zero C] [Add C] [Mul C] [LinearOrder C] sized nodup real laws decay nonneg in
theorem recorded_perm (maxUpdateSz : Nat) (keys : List (BitVec w)) (entries : List (ModifyEntry w))
    (fits : ¬ overrun maxUpdateSz keys.length entries) (short : entries.length ≤ keys.length) :
    (recorded request.atomicOrder maxUpdateSz entries).Perm entries := by
  have launched := le_launched32 keys.length
  rw [overrun, Nat.min_eq_left (short.trans launched)] at fits
  rw [recorded_all request.atomicOrder maxUpdateSz entries (by omega)]
  exact request.atomicOrder.perm entries

theorem job_sound (within : request.call.InRange cfg request.table tags)
    (whole : request.call.rows.Whole cfg.embedWidthInBytes) {job : ModifyJob w C}
    (built : CacheSADeviceModify.job cfg arithmetic request tags counters = some job) :
    job.Sound cfg arithmetic tags ∧ ∀ i, 0 ≤ job.counters i := by
  rcases Option.map_eq_some_iff.mp built with ⟨list, made, rfl⟩
  cases call : request.call with
  | insert maxUpdateSz items =>
    simp only [call, InRange] at within
    simp only [listed, call] at made
    split at made
    · exact absurd made (by simp)
    · rename_i fits
      rcases within with ⟨few, priorities⟩
      have plan := replaceEntries_eq_replacements sized items tags counters
      have length := replacements_length sized items tags counters laws decay nonneg priorities
        (groupBySet_exact sized items tags counters few)
      have room :
          (computeSetReplaceData cfg request.table items tags counters).1.length ≤ maxUpdateSz := by
        rw [plan, length_map]
        omega
      have all := recorded_all request.atomicOrder maxUpdateSz _ room
      have made := Option.some.inj made
      refine ⟨insert_sound arithmetic request sized tags counters nodup real laws decay nonneg
        maxUpdateSz items _
        call few priorities rfl ?_ (by simp [CommitCall.keys]) rfl ?_ (call ▸ whole), ?_⟩
      · simp only [← made, all]
        exact request.atomicOrder.perm _
      · intro key old
        simp only [rows, given, RowStep.result]
      · simp only [← made]
        exact replaceCounters_nonneg sized items tags counters laws decay nonneg priorities
  | update maxUpdateSz keys buffer | updateAccumulate maxUpdateSz _ _ keys buffer =>
    simp only [call, InRange] at within
    simp only [listed, call] at made
    split at made
    · exact absurd made (by simp)
    · rename_i fits
      rcases within with ⟨bytes, forward, small, reach, short⟩
      have perm := recorded_perm request maxUpdateSz keys _ fits short
      have made := Option.some.inj made
      have length : (CommitCall.keys request.call).length =
          keys.length := by rw [call, CommitCall.keys]
      refine ⟨hits_sound arithmetic request sized tags nodup real buffer _ bytes forward small
        (by rw [length]; exact reach) rfl ?_ ?_ rfl ?_ (call ▸ whole), ?_⟩
      · simp only [← made, call, CommitCall.keys]
        exact perm
      · simp only [← made, perm.length_eq]
        exact short
      · intro key old
        simp only [call, rows, given, RowStep.result, CommitCall.keys]
      · simp only [← made]
        exact nonneg

end CacheSADeviceModify

end Device

end EmbedCache
