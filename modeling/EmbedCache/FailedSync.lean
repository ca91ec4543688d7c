import EmbedCache.ModifySizes

/-! Operations of `CacheSADeviceModify` whose synchronisation fails. -/

namespace EmbedCache.CacheSADeviceModify

open Lib List

variable {w : Nat} {C : Type*} {cfg : CacheConfig w C} {outcome : Outcome} {state : DeviceState w C}

/-- The modify operations. -/
inductive ModifyKind
  | insert
  | update
  | updateAccumulate
  | invalidate
  deriving DecidableEq

inductive ModifyOp (w : Nat) (C : Type*)
  | commit (request : CommitRequest w C)
  | invalidate (order : AtomicOrder w) (table maxUpdateSz : Nat) (keys : List (BitVec w))

def commitKind : CommitCall w C → ModifyKind
  | .insert _ _ => .insert
  | .update _ _ _ => .update
  | .updateAccumulate _ _ _ _ _ => .updateAccumulate

def ModifyOp.kind : ModifyOp w C → ModifyKind
  | .commit request => commitKind request.call
  | .invalidate _ _ _ _ => .invalidate

def performModify [LinearOrder C] [Zero C] [Add C] [Mul C] (cfg : CacheConfig w C)
    (arithmetic : RowArithmetic) (outcome : Outcome) (state : DeviceState w C) :
    ModifyOp w C → Option (ECError × DeviceState w C)
  | .commit request => performCommit cfg arithmetic request outcome state
  | .invalidate order table maxUpdateSz keys =>
    invalidate cfg order outcome table maxUpdateSz keys state

/-- The calls that precede `invalidate_tags_and_sync`. -/
def ModifyKind.prepareCalls : ModifyKind → List ModifyCall
  | .insert => [.copyList, .copyInputs, .computeSet, .sortBySet, .setDataKernel]
  | .update | .updateAccumulate | .invalidate => [.copyList, .setDataKernel]

/-- Another call than those of `invalidate_tags_and_sync` fails, and fails in time. -/
def StoppedElsewhere (kind : ModifyKind) (outcome : Outcome) : Prop :=
  (∃ call ∈ kind.prepareCalls, outcome call ≠ .success) ∨
    kind ≠ .invalidate ∧ outcome .memUpdate ≠ .success

/-- Without the synchronisation the operation reports a failure, copies no row and publishes no
tag. -/
def StopsUnsynced (cfg : CacheConfig w C) (outcome : Outcome) (state : DeviceState w C)
    (result : ECError × DeviceState w C) : Prop :=
  SyncSucceeds outcome ∨ result.1 ≠ .success ∧ result.2.cache = state.cache ∧
    ∀ i, result.2.dTags i = cfg.sentinelKey ∨ result.2.dTags i = state.dTags i

/-- Where a step can only refuse with an error code. -/
def Honest (steps : List (DeviceStep w C)) : Prop := ∀ step ∈ steps, step.refusal ≠ some .success

theorem Honest.fails {steps : List (DeviceStep w C)} (honest : Honest steps)
    {step : DeviceStep w C} (member : step ∈ steps) (failed : outcome step.call ≠ .success) :
    step.result outcome ≠ .success := by
  intro result
  cases refusal : step.refusal with
  | none =>
    rw [GuardedStep.result, refusal] at result
    exact failed result
  | some code =>
    rw [GuardedStep.result, refusal] at result
    exact honest step member (refusal.trans (congrArg some result))

theorem runModify_stops {prepare commit : List (DeviceStep w C)} {table numKeys : Nat}
    {entries : List (ModifyEntry w)} {counters : Nat → C}
    (prepared : (runSteps .success outcome prepare state).2 = { state with dCounters := counters })
    (honest : Honest (prepare ++ commit)) (failed : SyncSucceeds outcome ∨
      (∃ call ∈ prepare.map GuardedStep.call, outcome call ≠ .success) ∨
      ∃ step ∈ commit.head?, outcome step.call ≠ .success) :
    StopsUnsynced cfg outcome state
      (runModify outcome prepare (invalidateTagsAndSync cfg table numKeys entries) commit
        state) := by
  by_cases code : (runSteps .success outcome prepare state).1 = .success
  · rcases failed with synced | ⟨call, made, early⟩ | ⟨step, first, late⟩
    · exact .inl synced
    · obtain ⟨step, member, rfl⟩ := mem_map.mp made
      exact absurd ((runSteps_ok_iff _ _ _ _).mp code step member)
        (honest.fails (mem_append_left _ member) early)
    · cases commit with
      | nil => cases first
      | cons other rest =>
        cases first
        have failed := honest.fails (mem_append_right _ mem_cons_self) late
        rw [runModify, if_pos code, prepared, runSteps, if_neg failed, runSteps_state]
        rcases sync_cases cfg table outcome numKeys entries { state with
          dCounters := counters } with
          same | cleared
        · rw [same]
          exact .inr ⟨failed, rfl, fun _ => .inr rfl⟩
        · rw [cleared]
          exact .inr ⟨failed, rfl, fun i => invalidateTagKernel_shrinks _ _ _ _ i⟩
  · rw [runModify, if_neg code]
    refine .inr ⟨code, ?_⟩
    rw [prepared]
    exact ⟨rfl, fun _ => .inr rfl⟩

theorem updatePrepare_state (numKeys : Nat) :
    (runSteps .success outcome (updatePrepare numKeys) state).2 = state := by
  simp only [updatePrepare, runSteps]
  split_ifs <;> rfl

section Commit

variable [LinearOrder C] [Zero C] [Add C] [Mul C] (arithmetic : RowArithmetic)
  (request : CommitRequest w C)

def prepareSteps (cfg : CacheConfig w C) (call : CommitCall w C) (counters : Nat → C) :
    List (DeviceStep w C) :=
  match call with
  | .insert _ items => insertPrepare cfg items.length counters
  | .update _ keys _ | .updateAccumulate _ _ _ keys _ => updatePrepare keys.length

def rowStep (cfg : CacheConfig w C) (call : CommitCall w C) (entries : List (ModifyEntry w)) :
    DeviceStep w C :=
  match call with
  | .insert _ items => memUpdateStep cfg items.length entries
  | .update _ keys _ => memUpdateStep cfg keys.length entries
  | .updateAccumulate _ updateFormat cacheFormat keys _ =>
    accumulateStep cfg arithmetic updateFormat cacheFormat keys.length entries

theorem performCommit_eq_runModify :
    performCommit cfg arithmetic request outcome state =
      (listed cfg request state.dTags state.dCounters).map fun listed =>
        runModify outcome (prepareSteps cfg request.call listed.2)
          (invalidateTagsAndSync cfg request.table request.call.keys.length listed.1)
          [rowStep arithmetic cfg request.call listed.1,
           tagUpdateStep cfg request.table request.call.keys.length listed.1] state := by
  cases call : request.call with
  | insert | update | updateAccumulate =>
    simp only [performCommit, listed, call, insert, update, updateAccumulate, prepareSteps, rowStep,
      CommitCall.keys, length_map]
    split <;> rfl

omit [LinearOrder C] [Zero C] [Add C] in
theorem prepareSteps_calls (cfg : CacheConfig w C) (call : CommitCall w C) (counters : Nat → C) :
    (prepareSteps cfg call counters).map GuardedStep.call = (commitKind call).prepareCalls := by
  cases call <;> rfl

omit [LinearOrder C] [Zero C] [Add C] in
/-- Whatever fails, the preparation changes nothing but the counters. -/
theorem prepareSteps_state (cfg : CacheConfig w C) (outcome : Outcome) (state : DeviceState w C)
    (call : CommitCall w C) (counters : Nat → C) :
    ∃ left, (runSteps .success outcome (prepareSteps cfg call counters) state).2 =
      { state with dCounters := left } := by
  cases call with
  | insert _ items =>
    simp only [prepareSteps, insertPrepare, runSteps]
    split_ifs <;> exact ⟨_, rfl⟩
  | update | updateAccumulate => exact ⟨_, updatePrepare_state _⟩

omit [LinearOrder C] [Zero C] [Add C] in
theorem commit_honest (call : CommitCall w C) (counters : Nat → C) (entries : List (ModifyEntry w))
    (table : Nat) :
    Honest (prepareSteps cfg call counters ++
      [rowStep arithmetic cfg call entries, tagUpdateStep cfg table call.keys.length entries]) := by
  cases call with
  | insert | update =>
    simp [Honest, prepareSteps, insertPrepare, updatePrepare, launchRefusal, rowStep, memUpdateStep,
      tagUpdateStep]
  | updateAccumulate _ updateFormat =>
    cases updateFormat <;> simp [Honest, prepareSteps, updatePrepare, launchRefusal, rowStep,
      accumulateStep, contextInputType, accumulateRefusal, tagUpdateStep]

omit [LinearOrder C] [Zero C] [Add C] [Mul C] in
theorem rowStep_call (cfg : CacheConfig w C) (call : CommitCall w C)
    (entries : List (ModifyEntry w)) :
    (rowStep arithmetic cfg call entries).call = .memUpdate := by
  cases call with
  | insert | update | updateAccumulate => rfl

theorem performCommit_stops {result : ECError × DeviceState w C}
    (condition : SyncSucceeds outcome ∨ StoppedElsewhere (commitKind request.call) outcome)
    (done : performCommit cfg arithmetic request outcome state = some result) :
    StopsUnsynced cfg outcome state result := by
  rw [performCommit_eq_runModify] at done
  obtain ⟨list, _, rfl⟩ := Option.map_eq_some_iff.mp done
  obtain ⟨left, prepared⟩ := prepareSteps_state cfg outcome state request.call list.2
  refine runModify_stops prepared (commit_honest arithmetic _ _ _ _)
    (condition.imp_right (Or.imp ?_ fun late => ⟨_, rfl, ?_⟩))
  · rw [prepareSteps_calls]
    exact id
  · rw [rowStep_call]
    exact late.2

omit [LinearOrder C] [Zero C] [Add C] [Mul C] in
theorem rowStep_writes {call : CommitCall w C} {entries : List (ModifyEntry w)}
    {job : ModifyJob w C}
    (list : job.entries = entries) (rows : job.rows = call.rows)
    (launched : job.launched = call.keys.length) (middle : DeviceState w C) :
    ((rowStep arithmetic cfg call entries).effect middle).cache =
      job.write cfg arithmetic middle.cache := by
  cases call <;> simp [rowStep, memUpdateStep, accumulateStep, ModifyJob.write, list, rows,
    launched, CommitCall.rows, CommitCall.keys]

omit [LinearOrder C] [Zero C] [Add C] [Mul C] in
/-- The row kernel writes whatever became of the synchronisation. -/
theorem runModify_writes {prepare : List (DeviceStep w C)} {copy : DeviceStep w C}
    {table numKeys : Nat} {entries : List (ModifyEntry w)} {counters : Nat → C} {memory : Memory}
    (through : (runSteps .success outcome prepare state).1 = .success)
    (prepared : (runSteps .success outcome prepare state).2 = { state with dCounters := counters })
    (starts : copy.result outcome = .success)
    (written : ∀ middle : DeviceState w C, middle.cache = state.cache →
      (copy.effect middle).cache = memory) :
    (runModify outcome prepare (invalidateTagsAndSync cfg table numKeys entries)
      [copy, tagUpdateStep cfg table numKeys entries] state).2.cache = memory := by
  have publishes : ∀ middle : DeviceState w C, (runSteps .success outcome
      [tagUpdateStep cfg table numKeys entries] middle).2.cache = middle.cache := by
    intro middle
    simp only [runSteps]
    split_ifs <;> rfl
  unfold runModify
  dsimp only
  rw [if_pos through, prepared, runSteps, if_pos starts, publishes, runSteps_state]
  apply written
  rcases sync_cases cfg table outcome numKeys entries { state with dCounters := counters } with
    same | cleared
  · rw [same]
  · rw [cleared]

omit [LinearOrder C] [Zero C] [Add C] in
/-- The preparation of a call with keys refuses nothing. -/
theorem prepareSteps_refusal (cfg : CacheConfig w C) {call : CommitCall w C}
    (nonempty : launchRefusal call.keys.length = none) (counters : Nat → C) :
    ∀ step ∈ prepareSteps cfg call counters, step.refusal = none := by
  cases call with
  | insert _ items =>
    simp only [CommitCall.keys, length_map] at nonempty
    simp [prepareSteps, insertPrepare, nonempty]
  | update | updateAccumulate =>
    simp only [CommitCall.keys] at nonempty
    simp [prepareSteps, updatePrepare, nonempty]

omit [LinearOrder C] [Zero C] [Add C] [Mul C] in
/-- A call is refused for want of keys or by its row kernel. -/
theorem refusal_eq (cfg : CacheConfig w C) (call : CommitCall w C)
    (entries : List (ModifyEntry w)) :
    refusal call =
      (launchRefusal call.keys.length).or (rowStep arithmetic cfg call entries).refusal := by
  cases call with
  | insert | update | updateAccumulate => rfl

theorem performCommit_writes {job : ModifyJob w C}
    (made : CacheSADeviceModify.job cfg arithmetic request state.dTags state.dCounters = some job)
    (accepted : job.refusal = none)
    (ready : ∀ call ∈ (commitKind request.call).prepareCalls, outcome call = .success)
    (launched : outcome .memUpdate = .success) :
    ∃ result, performCommit cfg arithmetic request outcome state = some result ∧
      result.2.cache = job.write cfg arithmetic state.cache := by
  obtain ⟨list, isListed, rfl⟩ := Option.map_eq_some_iff.mp made
  obtain ⟨nonempty, formats⟩ :=
    Option.or_eq_none_iff.mp ((refusal_eq arithmetic cfg request.call list.1).symm.trans accepted)
  obtain ⟨left, prepared⟩ := prepareSteps_state cfg outcome state request.call list.2
  rw [performCommit_eq_runModify, isListed, Option.map_some]
  refine ⟨_, rfl, runModify_writes ?_ prepared ?_ fun middle kept => ?_⟩
  · rw [runSteps_ok_iff]
    intro step member
    rw [GuardedStep.result, prepareSteps_refusal cfg nonempty list.2 step member]
    apply ready
    rw [← prepareSteps_calls cfg request.call list.2]
    exact mem_map_of_mem member
  · rw [GuardedStep.result, formats, rowStep_call]
    exact launched
  · rw [← kept]
    exact rowStep_writes arithmetic (by rfl) (by rfl) (by rfl) middle

end Commit

theorem invalidate_stops {order : AtomicOrder w} {table maxUpdateSz : Nat} {keys : List (BitVec w)}
    {result : ECError × DeviceState w C}
    (condition : SyncSucceeds outcome ∨ StoppedElsewhere .invalidate outcome)
    (done : invalidate cfg order outcome table maxUpdateSz keys state = some result) :
    StopsUnsynced cfg outcome state result := by
  unfold invalidate at done
  dsimp only at done
  split at done
  · cases done
  · cases done
    refine runModify_stops (updatePrepare_state _) ?_ (condition.imp_right fun elsewhere => .inl ?_)
    · simp [Honest, updatePrepare, launchRefusal]
    · exact elsewhere.resolve_right fun late => late.1 rfl

/-! ### Operations that do not stop -/

/-- On a cache that holds the key 5 with a row of zeros: the row becomes 3, or the key 7 gets
one. -/
def unstopped : ModifyKind → ModifyOp 64 Nat
  | .insert => .commit ⟨.insert 1 [⟨7, 1, fun _ => 3⟩], 0, inOrder, inOrder⟩
  | .update => .commit ⟨.update 1 [5] ⟨fun _ => 3, 2⟩, 0, inOrder, inOrder⟩
  | .updateAccumulate =>
    .commit ⟨.updateAccumulate 1 .fp16 .fp16 [5] ⟨fun _ => 3, 2⟩, 0, inOrder, inOrder⟩
  | .invalidate => .invalidate inOrder 0 1 [5]

def fiveResident : DeviceState 64 Nat := ⟨GpuTable.holdsFive, fun _ => 0, fun _ => 0⟩

theorem unstopped_kind (kind : ModifyKind) : (unstopped kind).kind = kind := by cases kind <;> rfl

theorem unstopped_writes {kind : ModifyKind} {request : CommitRequest 64 Nat} (outcome : Outcome)
    (op : unstopped kind = .commit request)
    (ready : ∀ call ∈ kind.prepareCalls, outcome call = .success)
    (launched : outcome .memUpdate = .success) :
    ∃ result, performCommit (GpuTable.smallCache 1 (-1)) addBytes request outcome fiveResident =
      some result ∧ result.2.cache ≠ fiveResident.cache := by
  have writes : (CacheSADeviceModify.job (GpuTable.smallCache 1 (-1)) addBytes request
      fiveResident.dTags fiveResident.dCounters).any (fun job => job.refusal = none ∧
        ∃ a ∈ range 16, job.write (GpuTable.smallCache 1 (-1)) addBytes fiveResident.cache a ≠
          fiveResident.cache a) = true := by
    cases kind <;> cases op <;> decide +kernel
  obtain ⟨job, made, accepted⟩ := (Option.any_eq_true _ _).mp writes
  obtain ⟨accepted, a, _, written⟩ := of_decide_eq_true accepted
  have same : commitKind request.call = kind := by
    rw [← unstopped_kind kind, op]
    rfl
  obtain ⟨result, done, cache⟩ :=
    performCommit_writes addBytes request made accepted (same ▸ ready) launched
  exact ⟨result, done, fun kept => written (congrFun (cache ▸ kept) a)⟩

theorem unstopped_invalidate (outcome : Outcome)
    (ready : ∀ call ∈ ModifyKind.invalidate.prepareCalls, outcome call = .success) :
    ∃ result, performModify (GpuTable.smallCache 1 (-1)) addBytes outcome fiveResident
      (unstopped .invalidate) = some result ∧ result.1 = .success := by
  have fits : ¬ overrun 1 1 (computeSetInvalidateData (GpuTable.smallCache 1 (-1)) 0 [5]
      fiveResident.dTags) := by decide +kernel
  have through : (runSteps .success outcome (updatePrepare 1) fiveResident).1 = .success := by
    rw [runSteps_ok_iff]
    simp_all [updatePrepare, ModifyKind.prepareCalls, GuardedStep.result, launchRefusal]
  simp only [performModify, unstopped, invalidate, length_singleton, if_neg fits]
  refine ⟨_, rfl, ?_⟩
  unfold runModify
  exact congrArg Prod.fst (if_pos through)

/-- A pattern of outcomes stops every operation of a kind without the synchronisation exactly if a
call of the preparation fails as well, or the launch of the row kernel. -/
theorem failed_sync_stops_iff (kind : ModifyKind) (outcome : Outcome) :
    (∀ (w : Nat) (C : Type) [LinearOrder C] [Zero C] [Add C] [Mul C] (cfg : CacheConfig w C)
        (arithmetic : RowArithmetic) (op : ModifyOp w C) (state : DeviceState w C)
        (result : ECError × DeviceState w C),
      op.kind = kind → performModify cfg arithmetic outcome state op = some result →
        StopsUnsynced cfg outcome state result) ↔
    SyncSucceeds outcome ∨ StoppedElsewhere kind outcome := by
  constructor
  · intro stops
    by_contra unmet
    obtain ⟨unsynced, elsewhere⟩ := not_or.mp unmet
    obtain ⟨early, late⟩ := not_or.mp elsewhere
    have ready : ∀ call ∈ kind.prepareCalls, outcome call = .success :=
      fun call member => not_not.mp fun failed => early ⟨call, member, failed⟩
    cases op : unstopped kind with
    | commit request =>
      have launched : outcome .memUpdate = .success := by
        refine not_not.mp fun failed => late ⟨?_, failed⟩
        rintro rfl
        cases op
      obtain ⟨result, done, changed⟩ := unstopped_writes outcome op ready launched
      have kinds : (ModifyOp.commit request).kind = kind := op ▸ unstopped_kind kind
      rcases stops 64 Nat _ addBytes _ fiveResident result kinds done with synced | stopped
      · exact unsynced synced
      · exact changed stopped.2.1
    | invalidate order table maxUpdateSz keys =>
      obtain rfl : kind = .invalidate := by rw [← unstopped_kind kind, op]; rfl
      obtain ⟨result, done, code⟩ := unstopped_invalidate outcome ready
      rcases stops 64 Nat (GpuTable.smallCache 1 (-1)) addBytes (unstopped .invalidate) fiveResident
        result rfl done with synced | stopped
      · exact unsynced synced
      · exact stopped.1 code
  · intro condition w C _ _ _ _ cfg arithmetic op state result kinds done
    subst kinds
    cases op with
    | commit request => exact performCommit_stops arithmetic request condition done
    | invalidate => exact invalidate_stops condition done

/-- The event is not recorded, and the row of a resident key is overwritten all the same. -/
theorem failed_sync_ignored :
    let outcome : Outcome := fun call => if call = .eventRecord then .cudaError else .success
    let state : DeviceState 64 Nat := ⟨GpuTable.holdsFive, fun _ => 0, fun _ => 0⟩
    ((update (GpuTable.smallCache 1 (-1)) inOrder outcome 0 1 [5] ⟨fun _ => 3, 2⟩ state).map
      fun result =>
      (result.1, result.2.cache 0)) = some (.success, 3) ∧ ¬ SyncSucceeds outcome := by
  refine ⟨by decide +kernel, ?_⟩
  simp [SyncSucceeds]

end EmbedCache.CacheSADeviceModify
