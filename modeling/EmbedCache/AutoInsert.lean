import EmbedCache.Lib.Runs

/-! `AutoInsertHandler` (`layer_utils.cpp`) and the calls of the layers that use it.

A layer has a handler for each of its tables (the linear layer has one table). Lookups
try the insert lock of each handler, collect rows under it and may launch an insert, a
task of the thread pool that keeps the lock; modify calls wait for the lock and hold it
around the operation of the table. The fields of a handler are only used under its lock,
so what happens between taking and giving up the lock is one step. -/

namespace EmbedCache.AutoInsertHandler

open Lib Function Option

structure Settings where
  heuristic : Bool
  minInsertWait : Int
  minInsertSize : Int

/-- The fields of a handler. `locked` is the flag of `insert_lock_`; `launched` inserts were handed
to the thread pool and are not over, `stuck` ones wait for ever. -/
structure Handler where
  locked : Bool
  insertFreqCnt : Int
  collectedKeys : Int
  collectedOutputStride : Int
  launched : Nat
  stuck : Nat
  deriving DecidableEq, Repr

def Handler.initial : Handler := ⟨false, 0, 0, 0, 0, 0⟩

/-- What the calls made under the lock do: the answer of the heuristic, and which of them throw. -/
structure LookupOutcome where
  insertNeeded : Bool
  heuristicThrows : Bool
  collectThrows : Bool
  launchThrows : Bool

variable (settings : Settings) (handler : Handler)

def collectionPartSize (numKeys : Int) : Int :=
  let total := if handler.collectedKeys = 0 then max numKeys settings.minInsertSize
    else settings.minInsertSize
  min numKeys (total - handler.collectedKeys)

/-- `collect_keys_and_data`, if nothing in it throws. -/
def collectKeysAndData (numKeys : Int) : Handler :=
  { handler with
    collectedKeys := handler.collectedKeys + collectionPartSize settings handler numKeys }

/-- `auto_insert` up to the collection; `true` with an exception. -/
def collect (numKeys outputStride : Int) (outcome : LookupOutcome) (handler : Handler) :
    Bool × Handler :=
  if 0 < handler.collectedKeys then
    if outputStride ≠ handler.collectedOutputStride then (true, handler)
    else if outcome.collectThrows then (true, handler)
    else (false, collectKeysAndData settings handler numKeys)
  else
    let counted := { handler with insertFreqCnt := handler.insertFreqCnt - 1 }
    if counted.insertFreqCnt < 0 then
      if outcome.heuristicThrows then (true, counted)
      else if outcome.insertNeeded then
        let started := { counted with collectedOutputStride := outputStride, collectedKeys := 0 }
        if outcome.collectThrows then (true, started)
        else (false, collectKeysAndData settings started numKeys)
      else (false, counted)
    else (false, counted)

def launchOrUnlock (outcome : LookupOutcome) (handler : Handler) : Bool × Handler :=
  let bounded := { handler with insertFreqCnt := max handler.insertFreqCnt 0 }
  if 0 < bounded.collectedKeys ∧ settings.minInsertSize ≤ bounded.collectedKeys then
    if outcome.launchThrows then (true, bounded)
    else (false, { bounded with launched := bounded.launched + 1 })
  else (false, { bounded with locked := false })

def autoInsert (numKeys outputStride : Int) (outcome : LookupOutcome) (handler : Handler) :
    Bool × Handler :=
  match collect settings numKeys outputStride outcome handler with
  | (true, thrown) => (true, thrown)
  | (false, collected) => launchOrUnlock settings outcome collected

def unlockModify : Handler := { handler with collectedKeys := 0, locked := false }

inductive Ending
  | returns
  | throws
  | hangs
  deriving DecidableEq, Repr

/-- A launched insert. `insert` of a host table runs tasks on the same thread pool and may find no
worker. -/
def runInsert (ending : Ending) (handler : Handler) : Handler :=
  let done := { handler with launched := handler.launched - 1 }
  match ending with
  | .returns => { done with
    insertFreqCnt := settings.minInsertWait, collectedKeys := 0, locked := false }
  | .throws => done
  | .hangs => { done with stuck := done.stuck + 1 }

/-! ### Calls -/

/-- The part of a lookup or of a modify call (`update`, `accumulate`, `clear`, `erase`) that uses
the handlers: it goes through a range of tables. -/
inductive Call
  | lookup (numKeys outputStride : Int)
  | modify
  deriving DecidableEq, Repr

inductive Position
  | idle
  | before (call : Call) (table stop : Nat)
  | behind (call : Call) (table stop : Nat)
  deriving DecidableEq, Repr

structure LayerState where
  handlers : Nat → Handler
  threads : Nat → Position

def LayerState.initial : LayerState := ⟨fun _ => Handler.initial, fun _ => .idle⟩

inductive Action
  /-- A call begins; its range of tables may be empty. -/
  | start (thread : Nat) (call : Call) (table stop : Nat)
  /-- `try_lock` or `lock`. -/
  | enter (thread : Nat)
  /-- The rest of `auto_insert`. -/
  | finishLookup (thread : Nat) (outcome : LookupOutcome)
  /-- The table's operation and `unlock_modify`. -/
  | finishModify (thread : Nat) (ending : Ending)
  /-- The call is over, or an exception ends it before a lock. -/
  | leave (thread : Nat)
  /-- A task of the thread pool. -/
  | insert (table : Nat) (ending : Ending)

def LayerState.move (state : LayerState) (thread : Nat) (position : Position) : LayerState :=
  { state with threads := Function.update state.threads thread position }

def LayerState.set (state : LayerState) (table : Nat) (handler : Handler) : LayerState :=
  { state with handlers := Function.update state.handlers table handler }

attribute [simp] LayerState.move LayerState.set

variable (settings : Nat → Settings)

/-- `none` if the action cannot be taken: a thread waits in `lock`, or is not there. -/
def step (state : LayerState) : Action → Option LayerState
  | .start thread call table stop =>
    if state.threads thread = .idle then some (state.move thread (.before call table stop))
    else none
  | .enter thread =>
    match state.threads thread with
    | .before call table stop =>
      if stop ≤ table then none
      else if (settings table).heuristic = false then
        match call with
        | .lookup _ _ => some (state.move thread (.before call (table + 1) stop))
        | .modify => some (state.move thread (.behind call table stop))
      else if (state.handlers table).locked then
        match call with
        | .lookup _ _ => some (state.move thread (.before call (table + 1) stop))
        | .modify => none
      else some ((state.set table { state.handlers table with locked := true }).move thread
        (.behind call table stop))
    | _ => none
  | .finishLookup thread outcome =>
    match state.threads thread with
    | .behind (.lookup numKeys outputStride) table stop =>
      let result := autoInsert (settings table) numKeys outputStride outcome (state.handlers table)
      let next :=
        if result.1 then Position.idle else .before (.lookup numKeys outputStride) (table + 1) stop
      some ((state.set table result.2).move thread next)
    | _ => none
  | .finishModify thread ending =>
    match state.threads thread, ending with
    | .behind .modify table stop, .returns =>
      let unlocked :=
        if (settings table).heuristic then unlockModify (state.handlers table)
        else state.handlers table
      some ((state.set table unlocked).move thread (.before .modify (table + 1) stop))
    | .behind .modify _ _, .throws => some (state.move thread .idle)
    | _, _ => none
  | .leave thread =>
    match state.threads thread with
    | .before _ _ _ => some (state.move thread .idle)
    | _ => none
  | .insert table ending =>
    if 0 < (state.handlers table).launched
    then some (state.set table (runInsert (settings table) ending (state.handlers table)))
    else none

def Runs : LayerState → List Action → LayerState → Prop :=
  Run fun first action second => step settings first action = some second

/-! ### The lock -/

def Holds (state : LayerState) (table thread : Nat) : Prop :=
  (settings table).heuristic = true ∧ ∃ call stop, state.threads thread = .behind call table stop

/-- A lock has one holder, a thread or a launched insert, or it is free. -/
structure Owned (settings : Nat → Settings) (state : LayerState) (table : Nat) : Prop where
  free : (state.handlers table).locked = false → (state.handlers table).launched = 0 ∧
    ∀ thread, ¬ Holds settings state table thread
  held : (state.handlers table).locked = true →
    ((state.handlers table).launched = 1 ∧ ∀ thread, ¬ Holds settings state table thread) ∨
    ((state.handlers table).launched = 0 ∧ ∃ thread, Holds settings state table thread ∧
      ∀ other, Holds settings state table other → other = thread)
  moving : (state.handlers table).stuck = 0

/-! ### Steps of a call under the lock -/

theorem collect_frame (settings : Settings) (numKeys outputStride : Int) (outcome : LookupOutcome)
    (handler : Handler) :
    let result := (collect settings numKeys outputStride outcome handler).2
    result.locked = handler.locked ∧ result.launched = handler.launched ∧
      result.stuck = handler.stuck := by
  simp only [collect, collectKeysAndData]
  split_ifs <;> exact ⟨rfl, rfl, rfl⟩

variable {outcome : LookupOutcome}

/-- Without an exception the lock is given up or goes to a launched insert. -/
theorem autoInsert_spec {settings : Settings} {numKeys outputStride : Int} {handler : Handler}
    (returns : (autoInsert settings numKeys outputStride outcome handler).1 = false) :
    let result := (autoInsert settings numKeys outputStride outcome handler).2
    result.stuck = handler.stuck ∧
      ((result.locked = false ∧ result.launched = handler.launched) ∨
        (result.locked = handler.locked ∧ result.launched = handler.launched + 1)) := by
  have frame := collect_frame settings numKeys outputStride outcome handler
  simp only [autoInsert] at returns ⊢
  split at returns
  · exact absurd returns (by simp)
  · rename_i collected found
    simp only [found] at frame ⊢
    simp only [launchOrUnlock] at returns ⊢
    split_ifs at returns ⊢
    · exact ⟨frame.2.2, .inr ⟨frame.1, by rw [frame.2.1]⟩⟩
    · exact ⟨frame.2.2, .inl ⟨rfl, frame.2.1⟩⟩

/-- No call under the lock fails, and rows are collected with one stride. -/
structure LookupOutcome.Smooth (outcome : LookupOutcome) (outputStride : Int) (handler : Handler) :
    Prop where
  heuristic : outcome.heuristicThrows = false
  collect : outcome.collectThrows = false
  launch : outcome.launchThrows = false
  stride : 0 < handler.collectedKeys → outputStride = handler.collectedOutputStride

theorem LookupOutcome.Smooth.returns {outputStride : Int} {handler : Handler}
    (smooth : outcome.Smooth outputStride handler) (settings : Settings) (numKeys : Int) :
    (autoInsert settings numKeys outputStride outcome handler).1 = false := by
  have collected :
      (AutoInsertHandler.collect settings numKeys outputStride outcome handler).1 = false := by
    simp only [AutoInsertHandler.collect, smooth.heuristic, smooth.collect,
      Bool.false_eq_true, if_false]
    by_cases continued : 0 < handler.collectedKeys
    · rw [if_pos continued, if_neg (not_not.mpr (smooth.stride continued))]
    · rw [if_neg continued]
      by_cases due : handler.insertFreqCnt - 1 < 0
      · rw [if_pos due]
        cases outcome.insertNeeded <;> rfl
      · rw [if_neg due]
  simp only [autoInsert]
  split
  · rename_i thrown found
    rw [found] at collected
    exact absurd collected (by simp)
  · rename_i begun found
    simp only [launchOrUnlock, smooth.launch, Bool.false_eq_true, if_false]
    by_cases full : 0 < begun.collectedKeys ∧ settings.minInsertSize ≤ begun.collectedKeys
    · rw [if_pos full]
    · rw [if_neg full]

/-! ### Holders -/

section Holders

variable {settings : Nat → Settings} {state : LayerState} {table thread : Nat}

@[simp] theorem holds_set (other : Nat) (handler : Handler) :
    Holds settings (state.set other handler) table thread ↔ Holds settings state table thread :=
  Iff.rfl

theorem holds_move_self (position : Position) :
    Holds settings (state.move thread position) table thread ↔
    (settings table).heuristic = true ∧ ∃ call stop, position = .behind call table stop := by
  simp [Holds]

theorem holds_move_other {mover : Nat} (other : thread ≠ mover) (position : Position) :
    Holds settings (state.move mover position) table thread ↔
      Holds settings state table thread := by
  simp [Holds, update_of_ne other]

theorem not_holds_before {call : Call} {here stop : Nat}
    (position : state.threads thread = .before call here stop) :
    ¬ Holds settings state table thread := by
  rintro ⟨_, other, stop, behind⟩
  rw [position] at behind
  exact absurd behind (by simp)

theorem not_holds_idle (position : state.threads thread = .idle) :
    ¬ Holds settings state table thread := by
  rintro ⟨_, other, stop, behind⟩
  rw [position] at behind
  exact absurd behind (by simp)

variable {next : LayerState}

theorem Owned.congr (owned : Owned settings state table)
    (same : next.handlers table = state.handlers table)
    (holders : ∀ thread, Holds settings next table thread ↔ Holds settings state table thread) :
    Owned settings next table := by
  constructor
  case free =>
    intro unlocked
    rw [same] at unlocked ⊢
    exact ⟨(owned.free unlocked).1,
      fun thread => by rw [holders]; exact (owned.free unlocked).2 thread⟩
  case held =>
    intro locked
    rw [same] at locked ⊢
    simpa only [holders] using owned.held locked
  case moving => rw [same]; exact owned.moving

theorem holders_of_bystander
    (moved : ∃ position, next.threads = (state.move thread position).threads)
    (before : ¬ Holds settings state table thread) (after : ¬ Holds settings next table thread)
    (other : Nat) :
    Holds settings next table other ↔ Holds settings state table other := by
  obtain ⟨position, threads⟩ := moved
  have same : Holds settings next table other ↔
      Holds settings (state.move thread position) table other := by
    simp only [Holds, threads]
  by_cases self : other = thread
  · subst self
    exact ⟨fun holds => absurd holds after, fun holds => absurd holds before⟩
  · rw [same, holds_move_other self]

/-- A holder leaves the lock, free or with a launched insert. -/
theorem Owned.handOver (owned : Owned settings state table)
    (holds : Holds settings state table thread)
    (moved : ∃ position, next.threads = (state.move thread position).threads)
    (left : ¬ Holds settings next table thread)
    (stuck : (next.handlers table).stuck = (state.handlers table).stuck)
    (spec : ((next.handlers table).locked = false ∧
      (next.handlers table).launched = (state.handlers table).launched) ∨
      ((next.handlers table).locked = (state.handlers table).locked ∧
        (next.handlers table).launched = (state.handlers table).launched + 1)) : Owned settings
          next table := by
  have locked : (state.handlers table).locked = true := by
    by_contra unlocked
    exact (owned.free (by simpa using unlocked)).2 thread holds
  obtain ⟨none, only⟩ : (state.handlers table).launched = 0 ∧
      ∀ other, Holds settings state table other → other = thread := by
    rcases owned.held locked with ⟨_, nobody⟩ | ⟨none, holder, _, unique⟩
    · exact absurd holds (nobody thread)
    · exact ⟨none, fun other held => (unique other held).trans (unique thread holds).symm⟩
  have nobody : ∀ other, ¬ Holds settings next table other := by
    intro other held
    by_cases self : other = thread
    · exact left (self ▸ held)
    · obtain ⟨position, threads⟩ := moved
      have before : Holds settings state table other := by
        rw [← holds_move_other self position]
        simpa only [Holds, threads] using held
      exact self (only other before)
  constructor
  case free =>
    intro unlocked
    rcases spec with ⟨_, same⟩ | ⟨same, _⟩
    · exact ⟨same.trans none, nobody⟩
    · rw [same, locked] at unlocked
      exact absurd unlocked (by simp)
  case held =>
    intro nextLocked
    rcases spec with ⟨unlocked, _⟩ | ⟨_, more⟩
    · rw [unlocked] at nextLocked
      exact absurd nextLocked (by simp)
    · exact .inl ⟨by rw [more, none], nobody⟩
  case moving => exact stuck.trans owned.moving

theorem Owned.acquire (owned : Owned settings state table)
    (used : (settings table).heuristic = true)
    (unlocked : (state.handlers table).locked = false) (call : Call) (stop : Nat) :
    Owned settings ((state.set table { state.handlers table with locked := true }).move thread
      (.behind call table stop)) table := by
  obtain ⟨none, nobody⟩ := owned.free unlocked
  have handler : ((state.set table { state.handlers table with locked := true }).move thread
      (.behind call table stop)).handlers table = { state.handlers table with locked := true } := by
    simp
  constructor
  case free =>
    intro nextUnlocked
    rw [handler] at nextUnlocked
    exact absurd nextUnlocked (by simp)
  case held =>
    intro _
    refine .inr ⟨by rw [handler]; exact none, thread, ?_, ?_⟩
    · rw [holds_move_self]
      exact ⟨used, call, stop, rfl⟩
    · intro other held
      by_contra different
      rw [holds_move_other different, holds_set] at held
      exact nobody other held
  case moving => rw [handler]; exact owned.moving

end Holders

/-! ### Runs -/

def Sensible (state : LayerState) : Prop :=
  ∀ thread numKeys outputStride table stop,
    state.threads thread = .behind (.lookup numKeys outputStride) table stop →
      (settings table).heuristic = true

/-- Between taking a lock and giving it up nothing throws: calls of lookups succeed and keep the
stride of a collection, and table operations and launched inserts return. -/
def Smooth (state : LayerState) : Action → Prop
  | .finishLookup thread outcome => ∀ numKeys outputStride table stop,
      state.threads thread = .behind (.lookup numKeys outputStride) table stop →
        outcome.Smooth outputStride (state.handlers table)
  | .finishModify _ ending => ending = .returns
  | .insert _ ending => ending = .returns
  | .start _ _ _ _ | .enter _ | .leave _ => True

structure Disciplined (settings : Nat → Settings) (state : LayerState) : Prop where
  sensible : Sensible settings state
  owned : ∀ table, Owned settings state table

section Steps

variable {settings : Nat → Settings} {state next : LayerState} {thread : Nat} {position : Position}

section

variable (disciplined : Disciplined settings state)

include disciplined

/-- A step by a thread that holds no lock before and after it, on unchanged handlers. -/
theorem Disciplined.bystander
    (before : ∀ table, ¬ Holds settings state table thread)
    (after : ∀ table, ¬ Holds settings (state.move thread position) table thread)
    (lookups : ∀ numKeys outputStride table stop,
      position ≠ .behind (.lookup numKeys outputStride) table stop) :
    Disciplined settings (state.move thread position) := by
  constructor
  case sensible =>
    intro other numKeys outputStride table stop behind
    by_cases self : other = thread
    · subst self
      simp only [LayerState.move, update_self] at behind
      exact absurd behind (lookups numKeys outputStride table stop)
    · simp only [LayerState.move, update_of_ne self] at behind
      exact disciplined.sensible other numKeys outputStride table stop behind
  case owned =>
    intro table
    exact (disciplined.owned table).congr rfl
      (holders_of_bystander ⟨position, rfl⟩ (before table) (after table))

theorem Disciplined.start {call : Call} {table stop : Nat}
    (taken : step settings state (.start thread call table stop) = some next) :
      Disciplined settings next := by
  simp only [step] at taken
  split at taken
  · rename_i idle
    obtain rfl := some.inj taken
    refine disciplined.bystander (fun _ => not_holds_idle idle) (fun _ => ?_) (by simp)
    exact not_holds_before (by simp : _ = Position.before call table stop)
  · exact absurd taken (by simp)

theorem Disciplined.leave
    (taken : step settings state (.leave thread) = some next) : Disciplined settings next := by
  simp only [step] at taken
  split at taken
  · rename_i call table stop position
    obtain rfl := some.inj taken
    exact disciplined.bystander (fun _ => not_holds_before position)
      (fun _ => not_holds_idle (by simp)) (by simp)
  · exact absurd taken (by simp)

theorem Disciplined.enter
    (taken : step settings state (.enter thread) = some next) : Disciplined settings next := by
  simp only [step] at taken
  split at taken
  case h_2 => exact absurd taken (by simp)
  case h_1 call table stop position =>
  have outside : ∀ table, ¬ Holds settings state table thread := fun _ => not_holds_before position
  -- a lookup that does not get the lock goes on to the next table
  have skips : Disciplined settings (state.move thread (.before call (table + 1) stop)) :=
    disciplined.bystander outside
      (fun _ => not_holds_before (by simp : _ = Position.before call (table + 1) stop)) (by simp)
  by_cases ended : stop ≤ table
  · rw [if_pos ended] at taken
    exact absurd taken (by simp)
  rw [if_neg ended] at taken
  by_cases unused : (settings table).heuristic = false
  · rw [if_pos unused] at taken
    cases call with
    | lookup numKeys outputStride =>
      obtain rfl := some.inj taken
      exact skips
    | modify =>
      obtain rfl := some.inj taken
      refine disciplined.bystander outside (fun other holds => ?_) (by simp)
      obtain ⟨used, call, stop, here⟩ := (holds_move_self _).mp holds
      simp only [Position.behind.injEq] at here
      rw [← here.2.1, unused] at used
      exact absurd used (by simp)
  rw [if_neg unused] at taken
  have used : (settings table).heuristic = true := by simpa using unused
  by_cases locked : (state.handlers table).locked = true
  · rw [if_pos locked] at taken
    cases call with
    | lookup numKeys outputStride =>
      obtain rfl := some.inj taken
      exact skips
    | modify => exact absurd taken (by simp)
  rw [if_neg locked] at taken
  obtain rfl := some.inj taken
  constructor
  case sensible =>
    intro other numKeys outputStride place stop behind
    by_cases self : other = thread
    · subst self
      simp only [LayerState.move, update_self, Position.behind.injEq] at behind
      rw [← behind.2.1]
      exact used
    · simp only [LayerState.move, update_of_ne self] at behind
      exact disciplined.sensible other numKeys outputStride place stop behind
  case owned =>
    intro place
    by_cases here : place = table
    · subst here
      exact (disciplined.owned place).acquire used (by simpa using locked) call stop
    · refine (disciplined.owned place).congr (by simp [update_of_ne here])
        (holders_of_bystander ⟨_, rfl⟩ (outside place) ?_)
      rw [holds_move_self]
      rintro ⟨_, call, stop, same⟩
      simp only [Position.behind.injEq] at same
      exact here same.2.1.symm

/-- The holder of a table's lock moves on; other tables are not concerned. -/
theorem Disciplined.moveOn {thread table stop : Nat} {call : Call}
    (behind : state.threads thread = .behind call table stop)
    (outside : ∀ call place stop, position ≠ .behind call place stop) (handler : Handler)
    (here : Owned settings ((state.set table handler).move thread position) table) :
    Disciplined settings ((state.set table handler).move thread position) := by
  have after :
      ∀ place, ¬ Holds settings ((state.set table handler).move thread position) place thread := by
    intro place holds
    obtain ⟨_, call, stop, same⟩ := (holds_move_self _).mp holds
    exact outside call place stop same
  constructor
  case sensible =>
    intro other numKeys outputStride place stop inside
    by_cases self : other = thread
    · subst self
      simp only [LayerState.move, update_self] at inside
      exact absurd inside (outside _ _ _)
    · simp only [LayerState.move, update_of_ne self] at inside
      exact disciplined.sensible other numKeys outputStride place stop inside
  case owned =>
    intro place
    by_cases same : place = table
    · rw [same]
      exact here
    · refine (disciplined.owned place).congr (by simp [update_of_ne same])
        (holders_of_bystander ⟨position, rfl⟩ ?_ (after place))
      rintro ⟨_, other, stop, elsewhere⟩
      rw [behind] at elsewhere
      simp only [Position.behind.injEq] at elsewhere
      exact same elsewhere.2.1.symm

end

theorem not_holds_outside {thread table : Nat}
    (outside : ∀ call place stop, position ≠ .behind call place stop) :
    ¬ Holds settings (state.move thread position) table thread := by
  rw [holds_move_self]
  rintro ⟨_, call, stop, same⟩
  exact outside call table stop same

theorem Disciplined.finishLookup (disciplined : Disciplined settings state)
    (smooth : Smooth state (.finishLookup thread outcome))
    (taken : step settings state (.finishLookup thread outcome) = some next) :
      Disciplined settings next := by
  simp only [step] at taken
  split at taken
  case h_2 => exact absurd taken (by simp)
  case h_1 numKeys outputStride table stop behind =>
  obtain rfl := some.inj taken
  have returns := (smooth numKeys outputStride table stop behind).returns (settings table) numKeys
  have spec := autoInsert_spec returns
  have holds : Holds settings state table thread :=
    ⟨disciplined.sensible thread numKeys outputStride table stop behind, _, stop, behind⟩
  rw [returns]
  refine disciplined.moveOn behind (by simp) _ ?_
  refine (disciplined.owned table).handOver holds ⟨_, rfl⟩ (not_holds_outside (by simp)) ?_ ?_
  · simpa using spec.1
  · simpa using spec.2

theorem Disciplined.finishModify (disciplined : Disciplined settings state) {ending : Ending}
    (smooth : Smooth state (.finishModify thread ending))
    (taken : step settings state (.finishModify thread ending) = some next) :
      Disciplined settings next := by
  obtain rfl : ending = .returns := smooth
  simp only [step] at taken
  split at taken
  case h_2 impossible => exact absurd impossible (by simp)
  case h_3 => exact absurd taken (by simp)
  case h_1 table stop behind _ =>
  obtain rfl := some.inj taken
  refine disciplined.moveOn behind (by simp) _ ?_
  by_cases used : (settings table).heuristic = true
  · have holds : Holds settings state table thread := ⟨used, _, stop, behind⟩
    rw [if_pos used]
    refine (disciplined.owned table).handOver holds ⟨_, rfl⟩
      (not_holds_outside (by simp)) ?_ (.inl ?_)
    · simp [unlockModify]
    · simp [unlockModify]
  · rw [if_neg used]
    refine (disciplined.owned table).congr (by simp) fun other => ?_
    exact ⟨fun holds => absurd holds.1 used, fun holds => absurd holds.1 used⟩

theorem Disciplined.insert (disciplined : Disciplined settings state) {table : Nat}
    {ending : Ending}
    (smooth : Smooth state (.insert table ending))
    (taken : step settings state (.insert table ending) = some next) :
    Disciplined settings next := by
  obtain rfl : ending = .returns := smooth
  simp only [step] at taken
  split at taken
  case isFalse => exact absurd taken (by simp)
  case isTrue launched =>
  obtain rfl := some.inj taken
  refine ⟨disciplined.sensible, fun place => ?_⟩
  by_cases same : place = table
  · subst same
    have owned := disciplined.owned place
    have locked : (state.handlers place).locked = true := by
      by_contra unlocked
      have none := (owned.free (by simpa using unlocked)).1
      omega
    obtain ⟨one, nobody⟩ : (state.handlers place).launched = 1 ∧ ∀ thread,
        ¬ Holds settings state place thread := by
      rcases owned.held locked with inserting | ⟨none, _⟩
      · exact inserting
      · omega
    constructor
    case free =>
      intro _
      exact ⟨by simp [runInsert, one], fun thread => nobody thread⟩
    case held =>
      intro nextLocked
      simp [runInsert] at nextLocked
    case moving => simpa [runInsert] using owned.moving
  · exact (disciplined.owned place).congr (by simp [update_of_ne same]) fun _ => Iff.rfl

theorem Disciplined.step {action : Action} (disciplined : Disciplined settings state)
    (smooth : Smooth state action)
    (taken : AutoInsertHandler.step settings state action = some next) :
      Disciplined settings next := by
  cases action with
  | start thread call table stop => exact disciplined.start taken
  | enter thread => exact disciplined.enter taken
  | finishLookup thread outcome => exact disciplined.finishLookup smooth taken
  | finishModify thread ending => exact disciplined.finishModify smooth taken
  | leave thread => exact disciplined.leave taken
  | insert table ending => exact disciplined.insert smooth taken

end Steps

variable (settings : Nat → Settings)

theorem disciplined_initial : Disciplined settings LayerState.initial := by
  refine ⟨fun thread numKeys outputStride table stop behind => ?_, fun table => ?_⟩
  · simp [LayerState.initial] at behind
  · constructor
    case free => exact fun _ => ⟨rfl, fun thread => not_holds_idle rfl⟩
    case held =>
      intro locked
      simp [LayerState.initial, Handler.initial] at locked
    case moving => rfl

def LockSettled (state : LayerState) (table : Nat) : Prop :=
  ((state.handlers table).locked = false ∧ (state.handlers table).launched = 0) ∨
  ((state.handlers table).locked = true ∧ (state.handlers table).launched = 1 ∧
    (state.handlers table).stuck = 0 ∧
    ∃ next, step settings state (.insert table .returns) = some next ∧
      (next.handlers table).locked = false)

def SmoothRuns : LayerState → List Action → LayerState → Prop :=
  Run fun first action second => Smooth first action ∧ step settings first action = some second

theorem SmoothRuns.disciplined {settings : Nat → Settings} {actions : List Action}
    {state : LayerState}
    (run : SmoothRuns settings LayerState.initial actions state) : Disciplined settings state :=
  Run.invariant (Disciplined settings) (fun _ _ _ taken disciplined =>
    disciplined.step taken.1 taken.2) run
    (disciplined_initial settings)

/-- Whenever no call is in progress, every insert lock is free or held by one launched insert that
gives it up. -/
theorem insert_lock_settled {settings : Nat → Settings} {actions : List Action} {state : LayerState}
    (run : SmoothRuns settings LayerState.initial actions state) (quiet : ∀ thread,
      state.threads thread = .idle)
    (table : Nat) : LockSettled settings state table := by
  have owned := run.disciplined.owned table
  cases locked : (state.handlers table).locked with
  | false => exact .inl ⟨locked, (owned.free locked).1⟩
  | true =>
    rcases owned.held locked with ⟨one, _⟩ | ⟨_, thread, holds, _⟩
    · refine .inr ⟨locked, one, owned.moving, _, if_pos (by omega), ?_⟩
      simp [runInsert]
    · exact absurd holds (not_holds_idle (quiet thread))

/-! ### Locks that nobody gives up -/

structure Leaked (settings : Nat → Settings) (state : LayerState) (table : Nat) : Prop where
  used : (settings table).heuristic = true
  locked : (state.handlers table).locked = true
  launched : (state.handlers table).launched = 0
  nobody : ∀ thread, ¬ Holds settings state table thread

section Leak

variable {settings : Nat → Settings} {state next : LayerState} {table : Nat}

theorem Leaked.congr (leaked : Leaked settings state table)
    (same : next.handlers table = state.handlers table)
    {thread : Nat} (moved : ∃ position, next.threads = (state.move thread position).threads)
    (after : ¬ Holds settings next table thread) : Leaked settings next table := by
  refine ⟨leaked.used, same ▸ leaked.locked, same ▸ leaked.launched, fun other => ?_⟩
  rw [holders_of_bystander moved (leaked.nobody thread) after]
  exact leaked.nobody other

/-- A thread behind a lock is not behind this one. -/
theorem Leaked.elsewhere (leaked : Leaked settings state table) {thread place stop : Nat}
    {call : Call}
    (behind : state.threads thread = .behind call place stop) : table ≠ place := by
  rintro rfl
  exact leaked.nobody thread ⟨leaked.used, call, stop, behind⟩

/-- No step gives the lock up, whatever it does. -/
theorem Leaked.step {action : Action} (leaked : Leaked settings state table)
    (taken : AutoInsertHandler.step settings state action = some next) :
      Leaked settings next table := by
  cases action with
  | start thread call place stop =>
    simp only [AutoInsertHandler.step] at taken
    split at taken
    · obtain rfl := some.inj taken
      exact leaked.congr rfl ⟨_, rfl⟩ (not_holds_outside (by simp))
    · exact absurd taken (by simp)
  | enter thread =>
    simp only [AutoInsertHandler.step] at taken
    split at taken
    case h_2 => exact absurd taken (by simp)
    case h_1 call place stop position =>
    have skips : Leaked settings (state.move thread (.before call (place + 1) stop)) table :=
      leaked.congr rfl ⟨_, rfl⟩ (not_holds_outside (by simp))
    split_ifs at taken with ended unused locked
    · cases call with
      | lookup numKeys outputStride =>
        obtain rfl := some.inj taken
        exact skips
      | modify =>
        obtain rfl := some.inj taken
        refine leaked.congr rfl ⟨_, rfl⟩ ?_
        rw [holds_move_self]
        rintro ⟨used, call, stop, here⟩
        simp only [Position.behind.injEq] at here
        rw [← here.2.1, unused] at used
        exact absurd used (by simp)
    · cases call with
      | lookup numKeys outputStride =>
        obtain rfl := some.inj taken
        exact skips
      | modify => exact absurd taken (by simp)
    · obtain rfl := some.inj taken
      have other : table ≠ place := by
        rintro rfl
        exact locked leaked.locked
      refine leaked.congr (by simp [update_of_ne other]) ⟨_, rfl⟩ ?_
      rw [holds_move_self]
      rintro ⟨_, call, stop, here⟩
      simp only [Position.behind.injEq] at here
      exact other here.2.1.symm
  | finishLookup thread outcome =>
    simp only [AutoInsertHandler.step] at taken
    split at taken
    case h_2 => exact absurd taken (by simp)
    case h_1 numKeys outputStride place stop behind =>
    obtain rfl := some.inj taken
    have other := leaked.elsewhere behind
    refine leaked.congr (by simp [update_of_ne other]) ⟨_, rfl⟩ ?_
    exact not_holds_outside (by split <;> simp)
  | finishModify thread ending =>
    simp only [AutoInsertHandler.step] at taken
    split at taken
    case h_1 place stop behind =>
      obtain rfl := some.inj taken
      have other := leaked.elsewhere behind
      exact leaked.congr (by simp [update_of_ne other]) ⟨_, rfl⟩
        (not_holds_outside (by simp))
    case h_2 =>
      obtain rfl := some.inj taken
      exact leaked.congr rfl ⟨_, rfl⟩ (not_holds_outside (by simp))
    case h_3 => exact absurd taken (by simp)
  | leave thread =>
    simp only [AutoInsertHandler.step] at taken
    split at taken
    · obtain rfl := some.inj taken
      exact leaked.congr rfl ⟨_, rfl⟩ (not_holds_outside (by simp))
    · exact absurd taken (by simp)
  | insert place ending =>
    simp only [AutoInsertHandler.step] at taken
    split at taken
    case isFalse => exact absurd taken (by simp)
    case isTrue launched =>
    obtain rfl := some.inj taken
    have other : table ≠ place := by
      rintro rfl
      have none := leaked.launched
      omega
    have same :
        (state.set place (runInsert (settings place) ending (state.handlers place))).handlers
        table =
        state.handlers table := by simp [update_of_ne other]
    exact ⟨leaked.used, same ▸ leaked.locked, same ▸ leaked.launched, fun thread =>
      leaked.nobody thread⟩

theorem Leaked.forever (leaked : Leaked settings state table) {actions : List Action}
    (run : Runs settings state actions next) : (next.handlers table).locked = true :=
  (Run.invariant (fun state => Leaked settings state table)
    (fun _ _ _ taken before => before.step taken) run leaked).locked

end Leak

/-! A layer of one table, with inserts of at least four keys. -/

def fourKeys : Nat → Settings := fun _ => ⟨true, 0, 4⟩

def fine : LookupOutcome := ⟨true, false, false, false⟩

def lookupActions (numKeys outputStride : Int) : List Action :=
  [.start 0 (.lookup numKeys outputStride) 0 1, .enter 0, .finishLookup 0 fine, .leave 0]

/-- A lookup of four keys launches an insert, which has the lock when the lookup is over. -/
theorem insert_lock_settled_launched :
    ∃ state, SmoothRuns fourKeys LayerState.initial (lookupActions 4 2) state ∧
    (state.handlers 0).launched = 1 ∧ LockSettled fourKeys state 0 := by
  have smooth : Smooth ((LayerState.initial.move 0 (.before (.lookup 4 2) 0 1)).set 0
      { Handler.initial with locked := true } |>.move 0 (.behind (.lookup 4 2) 0 1))
        (.finishLookup 0 fine) := by
    intro numKeys outputStride table stop behind
    simp only [LayerState.move, update_self, Position.behind.injEq, Call.lookup.injEq] at behind
    obtain ⟨⟨rfl, rfl⟩, rfl, rfl⟩ := behind
    exact ⟨rfl, rfl, rfl, by simp [Handler.initial]⟩
  obtain ⟨state, run, launched, quiet⟩ :
      ∃ state, SmoothRuns fourKeys LayerState.initial (lookupActions 4 2) state ∧
      (state.handlers 0).launched = 1 ∧ ∀ thread, state.threads thread = .idle := by
    unfold lookupActions
    refine ⟨_, .step ⟨trivial, rfl⟩
      (.step ⟨trivial, rfl⟩ (.step ⟨smooth, rfl⟩ (.step ⟨trivial, rfl⟩ (.done _)))), rfl, ?_⟩
    intro thread
    by_cases self : thread = 0 <;> simp [self, LayerState.initial]
  exact ⟨state, run, launched, insert_lock_settled run quiet 0⟩

/-- Two lookups of one key with strides 2 and 4 throw at the check of the stride, and an update may
throw in the table: no call is in progress, and the lock is never free again. -/
theorem insert_lock_leaks :
    (∃ state, Runs fourKeys LayerState.initial
      (lookupActions 1 2 ++ (lookupActions 1 4).take 3) state ∧
      (∀ thread, state.threads thread = .idle) ∧
      ∀ actions later, Runs fourKeys state actions later → (later.handlers 0).locked = true) ∧
    ∃ state, Runs fourKeys LayerState.initial
      [.start 0 .modify 0 1, .enter 0, .finishModify 0 .throws] state ∧
      (∀ thread, state.threads thread = .idle) ∧
      ∀ actions later, Runs fourKeys state actions later → (later.handlers 0).locked = true := by
  constructor
  · obtain ⟨state, run, locked, launched, quiet⟩ : ∃ state,
        Runs fourKeys LayerState.initial (lookupActions 1 2 ++ (lookupActions 1 4).take 3) state ∧
        (state.handlers 0).locked = true ∧ (state.handlers 0).launched = 0 ∧
          ∀ thread, state.threads thread = .idle := by
      simp only [lookupActions, List.cons_append, List.nil_append, List.take]
      refine ⟨_, .step rfl
        (.step rfl (.step rfl (.step rfl (.step rfl (.step rfl (.step rfl (.done _))))))),
        rfl, rfl, ?_⟩
      intro thread
      by_cases self : thread = 0
      · subst self
        rfl
      · simp [self, LayerState.initial]
    have leaked : Leaked fourKeys state 0 :=
      ⟨rfl, locked, launched, fun thread => not_holds_idle (quiet thread)⟩
    exact ⟨state, run, quiet, fun actions later onward => leaked.forever onward⟩
  · obtain ⟨state, run, locked, launched, quiet⟩ : ∃ state,
        Runs fourKeys LayerState.initial
          [.start 0 .modify 0 1, .enter 0, .finishModify 0 .throws] state ∧
        (state.handlers 0).locked = true ∧ (state.handlers 0).launched = 0 ∧
          ∀ thread, state.threads thread = .idle := by
      refine ⟨_, .step rfl (.step rfl (.step rfl (.done _))), rfl, rfl, ?_⟩
      intro thread
      by_cases self : thread = 0 <;> simp [self, LayerState.initial]
    have leaked : Leaked fourKeys state 0 :=
      ⟨rfl, locked, launched, fun thread => not_holds_idle (quiet thread)⟩
    exact ⟨state, run, quiet, fun actions later onward => leaked.forever onward⟩

end EmbedCache.AutoInsertHandler
