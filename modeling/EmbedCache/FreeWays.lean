import EmbedCache.HostMap
import EmbedCache.Lib.Calls

/-! Which ways `CacheSAHostModify::insert` fills.

The victim of an insert is the way with the smallest counter, empty or not. An empty way is
taken first as long as its counter is zero and the counters of the others are positive:
`init` and `clear_cache` leave it so, `invalidate` does not, since it keeps the counters of
the ways that it empties, nor does a decay that takes the counter of a filled way to zero. -/

namespace EmbedCache.CacheSAHostModify

open Lib List Function

variable {w : Nat} {C : Type*}

section Victim

variable [LinearOrder C]

theorem minElement_le (counters : Nat → C) (base : Nat) {j : Nat} (way : j < numWays) :
    counters (base + minElement counters base) ≤ counters (base + j) := by
  have general : ∀ (ways : List Nat) (best : Nat),
      let chosen :=
        ways.foldl (fun best j => if counters (base + j) < counters (base + best) then j else best)
          best
      counters (base + chosen) ≤ counters (base + best) ∧
        ∀ j ∈ ways, counters (base + chosen) ≤ counters (base + j) := by
    intro ways
    induction ways with
    | nil => exact fun best => ⟨le_rfl, nofun⟩
    | cons first rest ih =>
      intro best
      have tail := ih (if counters (base + first) < counters (base + best) then first else best)
      have smaller :
          counters (base + if counters (base + first) < counters (base + best) then first
          else best) ≤
          min (counters (base + first)) (counters (base + best)) := by
        split
        · exact le_min le_rfl (le_of_lt ‹_›)
        · exact le_min (not_lt.mp ‹_›) le_rfl
      refine ⟨tail.1.trans (smaller.trans (min_le_right _ _)), fun j member => ?_⟩
      cases member with
      | head => exact tail.1.trans (smaller.trans (min_le_left _ _))
      | tail _ member => exact tail.2 j member
  exact (general (List.range numWays) 0).2 j (mem_range.mpr way)

end Victim

section Insert

variable [LinearOrder C] [Add C] {cfg : CacheConfig w C} {table : Nat} {scan : InsertScan w C}
  {item : InsertItem w C}

variable (cfg : CacheConfig w C)

def setBase (table : Nat) (key : BitVec w) : Nat :=
  tableBase cfg table + hashSetIdx key cfg.numSets * numWays

/-- The slot that `insert` gives to a key that is not there. -/
def victim (table : Nat) (scan : InsertScan w C) (key : BitVec w) : Nat :=
  setBase cfg table key + minElement scan.counters (setBase cfg table key)

/-- The three ways in which an iteration of `insert` ends. -/
inductive Iteration (cfg : CacheConfig w C) (table : Nat) (scan : InsertScan w C)
    (item : InsertItem w C) :
    InsertScan w C → Prop
  | hit {j : Nat} (found : findWay cfg table scan.tags item.key = some j) :
      Iteration cfg table scan item { scan with
        counters := Function.update scan.counters (setBase cfg table item.key + j)
          (scan.counters (setBase cfg table item.key + j) + item.priority) }
  | skip (absent : findWay cfg table scan.tags item.key = none)
      (refused : item.priority < scan.counters (victim cfg table scan item.key) ∨
        ∃ placed ∈ scan.insertMap, tableBase cfg table + placed.1 =
          victim cfg table scan item.key) :
      Iteration cfg table scan item scan
  | place {entry : ModifyEntry w} {hashkey : Nat}
    (absent : findWay cfg table scan.tags item.key = none)
      (allowed : scan.counters (victim cfg table scan item.key) ≤ item.priority)
      (fresh : ∀ placed ∈ scan.insertMap,
        tableBase cfg table + placed.1 ≠ victim cfg table scan item.key)
      (slot : tableBase cfg table + hashkey = victim cfg table scan item.key) :
      Iteration cfg table scan item
        { tags :=
          Function.update scan.tags (victim cfg table scan item.key)
            (constructTag item.key cfg.numSets)
          counters := Function.update scan.counters (victim cfg table scan item.key) item.priority
          insertMap := scan.insertMap ++ [(hashkey, entry)] }

theorem insertKey_iteration (table : Nat) (scan : InsertScan w C) (item : InsertItem w C) :
    Iteration cfg table scan item (insertKey cfg table scan item) := by
  have slot : tableBase cfg table + (hashSetIdx item.key cfg.numSets * numWays +
      minElement scan.counters (setBase cfg table item.key)) = victim cfg table scan item.key :=
    (Nat.add_assoc _ _ _).symm
  unfold insertKey
  dsimp only
  split
  · rename_i found
    exact .hit found
  · rename_i absent
    split_ifs with reject taken
    · exact .skip absent (.inl reject)
    · obtain ⟨placed, member, same⟩ := any_eq_true.mp taken
      refine .skip absent (.inr ⟨placed, member, ?_⟩)
      rw [of_decide_eq_true same]
      exact slot
    · refine .place absent (not_lt.mp reject) (fun placed member same => taken ?_) slot
      refine any_eq_true.mpr ⟨placed, member, decide_eq_true ?_⟩
      rw [← slot] at same
      exact Nat.add_left_cancel same

end Insert

section Counters

variable [Zero C] [LinearOrder C] {cfg : CacheConfig w C} {table : Nat}

def InTable (cfg : CacheConfig w C) (table i : Nat) : Prop :=
  tableBase cfg table ≤ i ∧ i < tableBase cfg table + cfg.numSets * numWays

def OccupiedPositive (cfg : CacheConfig w C) (tags : Tags w) (counters : Nat → C) : Prop :=
  ∀ i, tags i ≠ cfg.sentinelKey → 0 < counters i

def FreeZero (cfg : CacheConfig w C) (table : Nat) (tags : Tags w) (counters : Nat → C) : Prop :=
  ∀ i, InTable cfg table i → tags i = cfg.sentinelKey → counters i = 0

/-- An item that `insert` can tell from an empty way, with a positive priority. -/
structure Proper (cfg : CacheConfig w C) (item : InsertItem w C) : Prop where
  positive : 0 < item.priority
  apart : constructKey cfg.sentinelKey (hashSetIdx item.key cfg.numSets) cfg.numSets ≠ item.key

structure ScanOrdered (cfg : CacheConfig w C) (table : Nat) (scan : InsertScan w C) : Prop where
  occupied : OccupiedPositive cfg scan.tags scan.counters
  free : FreeZero cfg table scan.tags scan.counters
  placed : ∀ placed ∈ scan.insertMap, scan.tags (tableBase cfg table + placed.1) ≠ cfg.sentinelKey

variable {counters : Nat → C}

variable {item : InsertItem w C}

theorem constructTag_ne_sentinel (positive : 0 < cfg.numSets) (fits : cfg.numSets ≤ 2 ^ 32)
    (proper : Proper cfg item) : constructTag item.key cfg.numSets ≠ cfg.sentinelKey := by
  intro same
  apply proper.apart
  rw [← same]
  exact constructKey_constructTag_hash item.key cfg.numSets fits positive

variable {tags : Tags w}

theorem tag_ne_sentinel_of_findWay (proper : Proper cfg item) {j : Nat}
    (found : findWay cfg table tags item.key = some j) :
      tags (setBase cfg table item.key + j) ≠ cfg.sentinelKey := by
  intro empty
  have rebuilt := List.find?_some found
  rw [beq_iff_eq] at rebuilt
  apply proper.apart
  rw [← empty]
  exact rebuilt

theorem OccupiedPositive.change (occupied : OccupiedPositive cfg tags counters)
    (i : Nat) (tag : BitVec w) {counter : C} (positive : 0 < counter) :
    OccupiedPositive cfg (Function.update tags i tag) (Function.update counters i counter) := by
  intro j held
  by_cases same : j = i
  · rw [same, update_self]
    exact positive
  · rw [update_of_ne same] at held ⊢
    exact occupied j held

omit [LinearOrder C] in
theorem FreeZero.change (free : FreeZero cfg table tags counters) (i : Nat)
    {tag : BitVec w} (key : tag ≠ cfg.sentinelKey) (counter : C) :
    FreeZero cfg table (Function.update tags i tag) (Function.update counters i counter) := by
  intro j inside empty
  by_cases same : j = i
  · rw [same, update_self] at empty
    exact absurd empty key
  · rw [update_of_ne same] at empty ⊢
    exact free j inside empty

variable [Add C] [Mul C]

/-- What is asked of the numbers; counters are floats, and products of positive ones may be zero. -/
structure CounterLaws (cfg : CacheConfig w C) : Prop where
  zero_mul : 0 * cfg.decayRate = 0
  add_pos : ∀ a b : C, 0 < a → 0 < b → 0 < a + b

/-- The decay leaves something of the counters of filled ways. -/
def Survives (cfg : CacheConfig w C) (table : Nat) (tags : Tags w) (counters : Nat → C) : Prop :=
  ∀ i, tags i ≠ cfg.sentinelKey → 0 < counters i → 0 < decayCounters cfg table counters i

theorem decayCounters_zero (laws : CounterLaws cfg) {i : Nat} (zero : counters i = 0) :
    decayCounters cfg table counters i = 0 := by
  unfold decayCounters
  split
  · rw [zero, laws.zero_mul]
  · exact zero

variable (laws : CounterLaws cfg) (positive : 0 < cfg.numSets) (fits : cfg.numSets ≤ 2 ^ 32)

include laws positive fits

theorem ScanOrdered.step {scan next : InsertScan w C} (ordered : ScanOrdered cfg table scan)
    (proper : Proper cfg item) (iteration : Iteration cfg table scan item next) :
      ScanOrdered cfg table next := by
  have key := constructTag_ne_sentinel positive fits proper
  cases iteration with
  | @hit j found =>
    have held := tag_ne_sentinel_of_findWay proper found
    have more : 0 < scan.counters (setBase cfg table item.key + j) + item.priority :=
      laws.add_pos _ _ (ordered.occupied _ held) proper.positive
    have same : Function.update scan.tags (setBase cfg table item.key + j)
        (scan.tags (setBase cfg table item.key + j)) = scan.tags := update_eq_self _ _
    have occupied := ordered.occupied.change (setBase cfg table item.key + j)
      (scan.tags (setBase cfg table item.key + j)) more
    have free := ordered.free.change (setBase cfg table item.key + j) held
      (scan.counters (setBase cfg table item.key + j) + item.priority)
    rw [same] at occupied free
    exact ⟨occupied, free, ordered.placed⟩
  | skip => exact ordered
  | place absent allowed fresh slot =>
    refine ⟨ordered.occupied.change _ _ proper.positive, ordered.free.change _ key _,
      fun placed member => ?_⟩
    rcases mem_append.mp member with old | new
    · change Function.update scan.tags _ _ _ ≠ _
      rw [update_of_ne (fresh placed old)]
      exact ordered.placed placed old
    · change Function.update scan.tags _ _ _ ≠ _
      rw [mem_singleton.mp new, slot, update_self]
      exact key

theorem ScanOrdered.run (maxUpdateSz : Nat) {items : List (InsertItem w C)} {scan : InsertScan w C}
    (ordered : ScanOrdered cfg table scan) (proper : ∀ item ∈ items, Proper cfg item) :
    ScanOrdered cfg table (insertScan cfg table maxUpdateSz items scan) := by
  induction items generalizing scan with
  | nil => exact ordered
  | cons item rest ih =>
    unfold insertScan
    split
    · have next :=
        ordered.step laws positive fits (proper item mem_cons_self)
          (insertKey_iteration cfg table scan item)
      exact ih next fun other member => proper other (mem_cons_of_mem _ member)
    · exact ordered

omit [Zero C] [Add C] [Mul C] [LinearOrder C] laws fits in
theorem inTable_setBase (key : BitVec w) {j : Nat} (way : j < numWays) :
    InTable cfg table (setBase cfg table key + j) := by
  have set := hashSetIdx_lt key cfg.numSets positive
  simp only [InTable, setBase]
  simp only [numWays] at way ⊢
  omega

omit [Mul C] laws fits in
/-- If the set of a new key has an empty way, the victim is an empty way and the key gets it. -/
theorem ScanOrdered.place {scan : InsertScan w C} (ordered : ScanOrdered cfg table scan)
    (proper : Proper cfg item) (absent : findWay cfg table scan.tags item.key = none) {j : Nat}
    (way : j < numWays)
    (empty : scan.tags (setBase cfg table item.key + j) = cfg.sentinelKey) :
    scan.tags (victim cfg table scan item.key) = cfg.sentinelKey ∧
      (insertKey cfg table scan item).tags =
        Function.update scan.tags (victim cfg table scan item.key)
          (constructTag item.key cfg.numSets) ∧
      ∃ placed ∈ (insertKey cfg table scan item).insertMap, tableBase cfg table + placed.1 =
        victim cfg table scan item.key := by
  have least := minElement_le scan.counters (setBase cfg table item.key) way
  rw [ordered.free _ (inTable_setBase positive item.key way) empty] at least
  have vacant : scan.tags (victim cfg table scan item.key) = cfg.sentinelKey := by
    by_contra held
    exact absurd (ordered.occupied _ held) (not_lt.mpr least)
  have iteration := insertKey_iteration cfg table scan item
  generalize insertKey cfg table scan item = next at iteration
  cases iteration with
  | hit found =>
    rw [absent] at found
    cases found
  | skip _ refused =>
    rcases refused with small | ⟨placed, member, same⟩
    · exact absurd (small.trans_le least) (not_lt.mpr proper.positive.le)
    · rw [← same] at vacant
      exact absurd vacant (ordered.placed placed member)
  | place _ _ _ slot => exact ⟨vacant, rfl, _, mem_append_right _ (mem_singleton.mpr rfl), slot⟩

end Counters

section Scan

variable [LinearOrder C] [Add C] {cfg : CacheConfig w C} {table maxUpdateSz : Nat}

theorem insertScan_append (first rest : List (InsertItem w C)) (scan : InsertScan w C) :
    insertScan cfg table maxUpdateSz (first ++ rest) scan =
      insertScan cfg table maxUpdateSz rest (insertScan cfg table maxUpdateSz first scan) := by
  induction first generalizing scan with
  | nil => rfl
  | cons item first ih =>
    rw [cons_append, insertScan, insertScan]
    split
    · exact ih _
    · rename_i full
      cases rest with
      | nil => rfl
      | cons next rest => rw [insertScan, if_neg full]

theorem insertScan_keeps (cfg : CacheConfig w C) (table maxUpdateSz : Nat)
    (items : List (InsertItem w C))
    {scan : InsertScan w C} {placed : Nat × ModifyEntry w}
    (member : placed ∈ scan.insertMap) :
    (insertScan cfg table maxUpdateSz items scan).tags (tableBase cfg table + placed.1) =
      scan.tags (tableBase cfg table + placed.1) := by
  induction items generalizing scan with
  | nil => rfl
  | cons item items ih =>
    rw [insertScan]
    split
    · have iteration := insertKey_iteration cfg table scan item
      generalize insertKey cfg table scan item = next at iteration
      cases iteration with
      | hit found => exact ih member
      | skip => exact ih member
      | place _ _ fresh _ =>
        rw [ih (mem_append_left _ member)]
        exact update_of_ne (fresh placed member) _ _
    · rfl

end Scan

variable {cfg : CacheConfig w C} {table : Nat}

/-- `modify` works on the device; what the host has is not changed, however far the calls get. -/
theorem modify_host (cfg : CacheConfig w C) (arithmetic : RowArithmetic) (outcome : Outcome)
    (request : ModifyRequest)
    (table : Nat) (entries : List (ModifyEntry w)) (state : HostState w C) :
    (modify cfg arithmetic outcome request table entries state).2.hTags = state.hTags ∧
      (modify cfg arithmetic outcome request table entries state).2.hCounters =
        state.hCounters := by
  unfold modify
  split
  · exact ⟨rfl, rfl⟩
  · refine runSteps_keeps ECError.success outcome
      (fun next => next.hTags = state.hTags ∧ next.hCounters = state.hCounters)
      _ ?_ state ⟨rfl, rfl⟩
    intro step member next same
    rcases request with ⟨op, input, output⟩
    cases op <;> simp [modifySteps, memUpdateStep] at member
    all_goals rcases member with rfl | rfl | rfl | rfl | rfl | rfl | rfl | rfl
    all_goals exact same

theorem invalidateWay_held {key : BitVec w} {scan : Tags w × List (ModifyEntry w)} {j i : Nat}
    (held : (invalidateWay cfg table key scan j).1 i ≠ cfg.sentinelKey) :
    (invalidateWay cfg table key scan j).1 i = scan.1 i := by
  unfold invalidateWay at held ⊢
  dsimp only at held ⊢
  split at held
  · rename_i hit
    rw [if_pos hit]
    by_cases same : i = tableBase cfg table + wrap32 (hashSetIdx key cfg.numSets * numWays) + j
    · rw [same] at held
      exact absurd (update_self _ _ _) held
    · exact update_of_ne same _ _
  · rename_i miss
    rw [if_neg miss]

theorem invalidateScan_held {keys : List (BitVec w)} {tags : Tags w} {i : Nat}
    (held : (invalidateScan cfg table keys tags).1 i ≠ cfg.sentinelKey) :
    (invalidateScan cfg table keys tags).1 i = tags i := by
  rw [invalidateScan_eq] at held ⊢
  have general : ∀ (made : List (BitVec w × Nat)) (scan : Tags w × List (ModifyEntry w)),
      (made.foldl (fun scan probe => invalidateWay cfg table probe.1 scan probe.2) scan).1 i ≠
        cfg.sentinelKey →
      (made.foldl (fun scan probe => invalidateWay cfg table probe.1 scan probe.2) scan).1 i =
        scan.1 i := by
    intro made
    induction made with
    | nil => exact fun _ _ => rfl
    | cons probe made ih =>
      intro scan held
      have tail := ih _ held
      rw [foldl_cons] at held ⊢
      rw [tail] at held ⊢
      exact invalidateWay_held held
  exact general _ _ held

theorem invalidate_host {arithmetic : RowArithmetic} {outcome : Outcome} {table maxUpdateSz : Nat}
    {keys : List (BitVec w)} {state after : HostState w C} {code : ECError}
    (returned : invalidate cfg arithmetic outcome table maxUpdateSz keys state =
      some (code, after)) :
    after.hTags = (invalidateScan cfg table keys state.hTags).1 ∧
      after.hCounters = state.hCounters := by
  unfold invalidate at returned
  dsimp only at returned
  split at returned
  · cases returned
  · have host := modify_host cfg arithmetic outcome ⟨.invalidate, .fp16, .fp16⟩ table
      (invalidateScan cfg table keys state.hTags).2 { state with
        hTags := (invalidateScan cfg table keys state.hTags).1 }
    rw [Option.some.inj returned] at host
    exact host

theorem insert_host [LT C] [DecidableLT C] [Add C] [Mul C] (cfg : CacheConfig w C)
    (arithmetic : RowArithmetic)
    (order : MapOrder w) (outcome : Outcome) (table maxUpdateSz : Nat)
    (items : List (InsertItem w C)) (state : HostState w C) :
    let scan :=
  insertScan cfg table maxUpdateSz items ⟨state.hTags, decayCounters cfg table state.hCounters, []⟩
    (insert cfg arithmetic order outcome table maxUpdateSz items state).2.hTags = scan.tags ∧
      (insert cfg arithmetic order outcome table maxUpdateSz items state).2.hCounters =
        scan.counters :=
  modify_host cfg arithmetic outcome ⟨.replace, .fp16, .fp16⟩ table _ _

section Runs

variable [Zero C] [Add C] [Mul C] [LinearOrder C] {cfg : CacheConfig w C}
  {arithmetic : RowArithmetic}

/-- What a call is to meet in the state that it finds: keys told from empty ways, positive
priorities, no counter left behind in an empty way of the table, and none of a filled way lost to
the decay. -/
def Meets (cfg : CacheConfig w C) (table : Nat) (state : HostState w C) : HostCall w C → Prop
  | .insert _ items => (∀ item ∈ items, Proper cfg item) ∧
    FreeZero cfg table state.hTags state.hCounters ∧
    Survives cfg table state.hTags state.hCounters
  | _ => True

inductive Reached (cfg : CacheConfig w C) (arithmetic : RowArithmetic) (memory : Memory) :
    HostState w C → Prop
  | init : Reached cfg arithmetic memory (init cfg memory)
  | call {state after : HostState w C} {code : ECError} {table : Nat} {request : HostRequest w C}
      (before : Reached cfg arithmetic memory state) (meets : Meets cfg table state request.call)
      (performed : perform cfg arithmetic table request state = some (code, after)) :
        Reached cfg arithmetic memory after

variable (laws : CounterLaws cfg) (positive : 0 < cfg.numSets) (fits : cfg.numSets ≤ 2 ^ 32)

include laws

theorem scanOrdered_start {state : HostState w C}
    (occupied : OccupiedPositive cfg state.hTags state.hCounters)
    (free : FreeZero cfg table state.hTags state.hCounters)
    (survives : Survives cfg table state.hTags state.hCounters) :
    ScanOrdered cfg table ⟨state.hTags, decayCounters cfg table state.hCounters, []⟩ :=
  ⟨fun i held => survives i held (occupied i held),
    fun i inside empty => decayCounters_zero laws (free i inside empty), nofun⟩

include positive fits

theorem occupied_of_perform {request : HostRequest w C} {state after : HostState w C}
    {code : ECError}
    (occupied : OccupiedPositive cfg state.hTags state.hCounters)
    (meets : Meets cfg table state request.call)
    (performed : perform cfg arithmetic table request state = some (code, after)) :
    OccupiedPositive cfg after.hTags after.hCounters := by
  rcases request with ⟨call, order, outcome⟩
  cases call with
  | insert maxUpdateSz items =>
    have ordered :=
      ScanOrdered.run laws positive fits maxUpdateSz
        (scanOrdered_start laws occupied meets.2.1 meets.2.2) meets.1
    have host := insert_host cfg arithmetic order outcome table maxUpdateSz items state
    rw [show insert cfg arithmetic order outcome table maxUpdateSz items state = (code, after) from
      Option.some.inj performed] at host
    rw [host.1, host.2]
    exact ordered.occupied
  | update maxUpdateSz keys buffer =>
    have host := modify_host cfg arithmetic outcome ⟨.update, .fp16, .fp16⟩ table
      (searchTagStorageForUpdate cfg table maxUpdateSz state.hTags buffer 0 keys []) state
    rw [show modify cfg arithmetic outcome ⟨.update, .fp16, .fp16⟩ table
      (searchTagStorageForUpdate cfg table maxUpdateSz state.hTags buffer 0 keys []) state =
        (code, after) from
      Option.some.inj performed] at host
    rw [host.1, host.2]
    exact occupied
  | invalidate maxUpdateSz keys =>
    obtain ⟨tags, counters⟩ := invalidate_host performed
    rw [tags, counters]
    intro i held
    rw [invalidateScan_held held] at held
    exact occupied i held
  | clearCache =>
    have result : clearCache cfg outcome state = (code, after) := Option.some.inj performed
    simp only [clearCache, runSteps] at result
    intro i held
    split at result <;> cases result <;> dsimp only at held ⊢
    all_goals
      split at held
      · exact absurd rfl held
      · rename_i beyond
        rw [if_neg beyond]
        exact occupied i held

theorem occupied_of_reached {memory : Memory} {state : HostState w C}
    (reached : Reached cfg arithmetic memory state) :
    OccupiedPositive cfg state.hTags state.hCounters := by
  induction reached with
  | init => exact fun i held => absurd rfl held
  | call _ meets performed occupied =>
    exact occupied_of_perform laws positive fits occupied meets performed

end Runs

def scanBefore [LT C] [DecidableLT C] [Add C] [Mul C] (cfg : CacheConfig w C)
    (table maxUpdateSz : Nat)
    (before : List (InsertItem w C)) (state : HostState w C) : InsertScan w C :=
  insertScan cfg table maxUpdateSz before ⟨state.hTags, decayCounters cfg table state.hCounters, []⟩

/-- The key is resident after the call, and its turn leaves every way alone that is not empty. -/
structure TakesFreeWay [LT C] [DecidableLT C] [Add C] [Mul C] (cfg : CacheConfig w C) (table : Nat)
    (scan : InsertScan w C)
    (item : InsertItem w C) (after : HostState w C) : Prop where
  resident : findWay cfg table after.hTags item.key ≠ none
  keeps : ∀ i, scan.tags i ≠ cfg.sentinelKey → (insertKey cfg table scan item).tags i = scan.tags i

section Theorem

variable {cfg : CacheConfig w C} {arithmetic : RowArithmetic}

theorem findWay_of_tag (positive : 0 < cfg.numSets) (fits : cfg.numSets ≤ 2 ^ 32) {tags : Tags w}
    {key : BitVec w}
    {j : Nat} (way : j < numWays)
    (tag : tags (setBase cfg table key + j) = constructTag key cfg.numSets) :
    findWay cfg table tags key ≠ none := by
  intro absent
  have other := List.find?_eq_none.mp absent j (mem_range.mpr way)
  apply other
  rw [beq_iff_eq, show tableBase cfg table + hashSetIdx key cfg.numSets * numWays + j =
    setBase cfg table key + j from rfl, tag]
  exact constructKey_constructTag_hash key cfg.numSets fits positive

/-- In a run whose inserts have positive priorities, find no counter left behind in an empty way and
lose none to the decay, a new key takes an empty way of its set whenever there is one. -/
theorem insert_takes_free_way [Zero C] [Add C] [Mul C] [LinearOrder C] (laws : CounterLaws cfg)
    (positive : 0 < cfg.numSets) (fits : cfg.numSets ≤ 2 ^ 32) {memory : Memory}
    {state : HostState w C} (reached : Reached cfg arithmetic memory state) (order : MapOrder w)
    (outcome : Outcome) (table maxUpdateSz : Nat) (before after : List (InsertItem w C))
    (item : InsertItem w C)
    (meets : Meets cfg table state (.insert maxUpdateSz (before ++ item :: after)))
    (budget : (scanBefore cfg table maxUpdateSz before state).insertMap.length < maxUpdateSz)
    (absent : findWay cfg table (scanBefore cfg table maxUpdateSz before state).tags item.key =
      none)
    {j : Nat} (way : j < numWays)
    (empty : (scanBefore cfg table maxUpdateSz before state).tags (setBase cfg table item.key + j) =
      cfg.sentinelKey) :
    TakesFreeWay cfg table (scanBefore cfg table maxUpdateSz before state) item
      (insert cfg arithmetic order outcome table maxUpdateSz
        (before ++ item :: after) state).2 := by
  have occupied := occupied_of_reached laws positive fits reached
  have proper := meets.1 item (mem_append_right _ mem_cons_self)
  have ordered :=
    ScanOrdered.run laws positive fits maxUpdateSz
      (scanOrdered_start laws occupied meets.2.1 meets.2.2)
    fun other member => meets.1 other (mem_append_left (item :: after) member)
  obtain ⟨vacant, placed, ⟨taken, member, slot⟩⟩ := ordered.place positive proper absent way empty
  refine ⟨?_, fun i held => ?_⟩
  · have host :=
      (insert_host cfg arithmetic order outcome table maxUpdateSz (before ++ item :: after) state).1
    have whole : insertScan cfg table maxUpdateSz (before ++ item :: after)
        ⟨state.hTags, decayCounters cfg table state.hCounters, []⟩ =
          insertScan cfg table maxUpdateSz after
        (insertKey cfg table (scanBefore cfg table maxUpdateSz before state) item) := by
      rw [insertScan_append, insertScan]
      exact if_pos budget
    rw [host, whole]
    have bound := minElement_lt (scanBefore cfg table maxUpdateSz before state).counters
      (setBase cfg table item.key)
    refine findWay_of_tag positive fits bound ?_
    have kept := insertScan_keeps cfg table maxUpdateSz after member
    rw [slot] at kept
    refine kept.trans ?_
    rw [placed]
    exact update_self _ _ _
  · have other : i ≠ victim cfg table (scanBefore cfg table maxUpdateSz before state) item.key := by
      rintro rfl
      exact held vacant
    exact (congrFun placed i).trans (update_of_ne other _ _)

end Theorem

section Decaying

/-- Counters that are halved by every insert. -/
def halving : CacheConfig 64 ℚ := ⟨1, 1, 1, 1 / 2, -1⟩

theorem halving_laws : CounterLaws halving := ⟨zero_mul _, fun _ _ => add_pos⟩

def weighed (key : BitVec 64) (priority : ℚ) : InsertItem 64 ℚ := ⟨key, priority, fun _ => 0⟩

def afterCall (call : HostCall 64 ℚ) (state : HostState 64 ℚ) : HostState 64 ℚ :=
  ((perform halving addBytes 0 ⟨call, inOrder, noFailure⟩ state).map Prod.snd).getD state

def twoWays : HostState 64 ℚ :=
  afterCall (.insert 8 [weighed 1 4, weighed 2 3]) (init halving fun _ => 0)

def restarted : HostState 64 ℚ := afterCall .clearCache (afterCall (.invalidate 8 [1]) twoWays)

def refilled : HostState 64 ℚ := afterCall (.insert 8 [weighed 1 4, weighed 2 3]) restarted

theorem survives_halving (tags : Tags 64) (counters : Nat → ℚ) :
    Survives halving 0 tags counters := by
  intro i _ positive
  rw [decayCounters]
  split
  · exact mul_pos positive (by norm_num [halving])
  · exact positive

theorem meets_halving {state : HostState 64 ℚ} {items : List (InsertItem 64 ℚ)}
    (proper : ∀ item ∈ items, 0 < item.priority ∧
      constructKey halving.sentinelKey (hashSetIdx item.key 1) 1 ≠ item.key)
    (free : ∀ i < 8, state.hTags i = halving.sentinelKey → state.hCounters i = 0) :
    Meets halving 0 state (.insert 8 items) :=
  ⟨fun item member => ⟨(proper item member).1, (proper item member).2⟩,
    fun i inside => free i (by simpa [tableBase, halving, numWays] using inside.2),
      survives_halving _ _⟩

theorem reached_afterCall {state : HostState 64 ℚ} {call : HostCall 64 ℚ}
    (reached : Reached halving addBytes (fun _ => 0) state) (meets : Meets halving 0 state call) :
    Reached halving addBytes (fun _ => 0) (afterCall call state) := by
  rw [afterCall]
  cases performed : perform halving addBytes 0 ⟨call, inOrder, noFailure⟩ state with
  | none => exact reached
  | some result => exact .call reached meets performed

theorem reached_refilled : Reached halving addBytes (fun _ => 0) refilled := by
  have first : Reached halving addBytes (fun _ => 0) twoWays :=
    reached_afterCall .init (meets_halving (by decide +kernel) fun _ _ _ => rfl)
  have third : Reached halving addBytes (fun _ => 0) restarted :=
    reached_afterCall (reached_afterCall first trivial) trivial
  exact reached_afterCall third (meets_halving (by decide +kernel) (by decide +kernel))

/-- Two keys come, one goes, and after `clear_cache` both come again; then one of them is counted
once more and a third key takes the way of the smallest of the decayed counters, which is empty. -/
theorem insert_takes_free_way_refilled :
    refilled.hCounters 0 = 4 ∧ (scanBefore halving 0 8 [weighed 1 1] refilled).counters 0 = 3 ∧
      TakesFreeWay halving 0 (scanBefore halving 0 8 [weighed 1 1] refilled) (weighed 3 (1 / 2))
        (insert halving addBytes inOrder noFailure 0 8 [weighed 1 1, weighed 3 (1 / 2)]
          refilled).2 := by
  refine ⟨by decide +kernel, by decide +kernel, ?_⟩
  exact insert_takes_free_way halving_laws (by decide)
    (by decide) reached_refilled inOrder noFailure 0 8 [weighed 1 1] []
    (weighed 3 (1 / 2)) (meets_halving (by decide +kernel) (by decide +kernel)) (by decide +kernel)
      (by decide +kernel)
    (j := 2) (by decide) (by decide +kernel)

end Decaying

section Concrete

def prioritized (key : BitVec 64) (priority : Nat) : InsertItem 64 Nat :=
  ⟨key, priority, fun _ => 0⟩

def eightKeys : List (InsertItem 64 Nat) :=
  prioritized 0 10 :: [1, 2, 3, 4, 5, 6, 7].map fun key => prioritized key 2

def fullSet : HostState 64 Nat :=
  (insert oneSet addBytes inOrder noFailure 0 8 eightKeys (init oneSet fun _ => 0)).2

def firstGone : HostState 64 Nat :=
  ((invalidate oneSet addBytes noFailure 0 8 [0] fullSet).map Prod.snd).getD fullSet

/-- The emptied way keeps the counter 10. A key of priority 5 goes to the way of key 1, which is
evicted, and a key of priority 1 is not inserted at all. -/
theorem invalidate_keeps_counter :
    perform oneSet addBytes 0 (tinyRequest (.insert 8 eightKeys)) (init oneSet fun _ => 0) =
        some (.success, fullSet) ∧
      perform oneSet addBytes 0 (tinyRequest (.invalidate 8 [0])) fullSet =
        some (.success, firstGone) ∧
      firstGone.hTags 0 = oneSet.sentinelKey ∧
      (findWay oneSet 0 firstGone.hTags 8 = none ∧ findWay oneSet 0 firstGone.hTags 9 = none) ∧
      (¬ TakesFreeWay oneSet 0 (scanBefore oneSet 0 8 [] firstGone) (prioritized 8 5)
        (insert oneSet addBytes inOrder noFailure 0 8 [prioritized 8 5] firstGone).2) ∧
      ¬ TakesFreeWay oneSet 0 (scanBefore oneSet 0 8 [] firstGone) (prioritized 9 1)
        (insert oneSet addBytes inOrder noFailure 0 8 [prioritized 9 1] firstGone).2 := by
  refine ⟨rfl, rfl, by decide +kernel, by decide +kernel, fun takes => ?_, fun takes => ?_⟩
  · have kept := takes.keeps 1 (by decide +kernel)
    exact absurd kept (by decide +kernel)
  · exact takes.resident (by decide +kernel)

end Concrete

end EmbedCache.CacheSAHostModify
