import Mathlib.Data.Set.Basic
import Mathlib.Tactic

/-! Overwriting slots that readers on asynchronous streams may still use.

Readers are kernels queued on streams, which run their kernels in order. A reader picks
slots while one of its kernels runs and may use them until its last kernel has completed.
A guarded reader queues several kernels and holds a shared lock from the first to the
last. The writer hides its slots, takes the lock exclusively, records one event on every
stream, waits for all events, and only then writes. -/

namespace EmbedCache.Lib

open Function

variable {ι ρ X : Type*}

structure Reader (ι X : Type*) where
  stream : ι
  guarded : Bool
  isOpen : Bool
  /-- Positions of its kernels in the stream. -/
  kernels : List Nat
  holds : Set X

def Reader.Finished (completed : ι → Nat) (reader : Reader ι X) : Prop :=
  reader.isOpen = false ∧ ∀ kernel ∈ reader.kernels, kernel < completed reader.stream

inductive Phase (ι X : Type*)
  | idle
  | concealing (slots : Set X)
  | hidden (slots : Set X)
  | recording (slots : Set X) (event : ι → Option Nat)
  | waiting (slots : Set X) (event : ι → Nat)
  | writing (slots : Set X)
  | written (slots : Set X)

structure Core (ι ρ X : Type*) where
  enqueued : ι → Nat
  completed : ι → Nat
  readers : ρ → Option (Reader ι X)
  locked : Bool
  phase : Phase ι X

def Core.init : Core ι ρ X where
  enqueued := fun _ => 0
  completed := fun _ => 0
  readers := fun _ => none
  locked := false
  phase := .idle

inductive Action (ι ρ X : Type*)
  | launch (r : ρ) (s : ι)
  | openFlow (r : ρ) (s : ι)
  | enqueue (r : ρ)
  | closeFlow (r : ρ)
  | complete (s : ι)
  | hold (r : ρ) (x : X)
  | begin (slots : Set X)
  | hide
  | lock
  | record (s : ι)
  | recorded
  | unlock
  | startWrite
  | endWrite
  | publish

section Step

variable [DecidableEq ι] [DecidableEq ρ]

inductive Core.Step (core : Core ι ρ X) : Action ι ρ X → Core ι ρ X → Prop
  | launch (r : ρ) (s : ι) (fresh : core.readers r = none) :
      core.Step (.launch r s) { core with
        enqueued := Function.update core.enqueued s (core.enqueued s + 1)
        readers := Function.update core.readers r (some ⟨s, false, false, [core.enqueued s], ∅⟩) }
  | openFlow (r : ρ) (s : ι) (fresh : core.readers r = none) (free : core.locked = false) :
      core.Step (.openFlow r s) { core with
        readers := Function.update core.readers r (some ⟨s, true, true, [], ∅⟩) }
  | enqueue (r : ρ) (reader : Reader ι X) (known : core.readers r = some reader)
    (isOpen : reader.isOpen = true) :
      core.Step (.enqueue r) { core with
        enqueued := Function.update core.enqueued reader.stream (core.enqueued reader.stream + 1)
        readers := Function.update core.readers r (some { reader with
          kernels := reader.kernels ++ [core.enqueued reader.stream] }) }
  | closeFlow (r : ρ) (reader : Reader ι X) (known : core.readers r = some reader)
    (isOpen : reader.isOpen = true) :
      core.Step (.closeFlow r) { core with
        readers := Function.update core.readers r (some { reader with isOpen := false }) }
  | complete (s : ι) (queued : core.completed s < core.enqueued s) :
      core.Step (.complete s) { core with
        completed := Function.update core.completed s (core.completed s + 1) }
  | hold (r : ρ) (x : X) (reader : Reader ι X) (known : core.readers r = some reader)
      (running : core.completed reader.stream ∈ reader.kernels) :
      core.Step (.hold r x) { core with
        readers :=
          Function.update core.readers r (some { reader with holds := insert x reader.holds }) }
  | begin (slots : Set X) (idle : core.phase = .idle) :
      core.Step (.begin slots) { core with phase := .concealing slots }
  | hide (slots : Set X) (here : core.phase = .concealing slots) :
      core.Step .hide { core with phase := .hidden slots }
  | lock (slots : Set X) (here : core.phase = .hidden slots) (free : core.locked = false)
      (closed : ∀ r reader, core.readers r = some reader → reader.guarded = true →
        reader.isOpen = false) :
      core.Step .lock { core with locked := true, phase := .recording slots fun _ => none }
  | record (slots : Set X) (event : ι → Option Nat) (s : ι)
    (here : core.phase = .recording slots event) :
      core.Step (.record s) { core with
        phase := .recording slots (Function.update event s (some (core.enqueued s))) }
  | recorded (slots : Set X) (event : ι → Nat)
    (here : core.phase = .recording slots fun s => some (event s)) :
      core.Step .recorded { core with phase := .waiting slots event }
  | unlock (taken : core.locked = true)
    (done : ∀ slots event, core.phase ≠ .recording slots event) :
      core.Step .unlock { core with locked := false }
  | startWrite (slots : Set X) (event : ι → Nat) (here : core.phase = .waiting slots event)
      (reached : ∀ s, event s ≤ core.completed s) :
      core.Step .startWrite { core with phase := .writing slots }
  | endWrite (slots : Set X) (here : core.phase = .writing slots) :
      core.Step .endWrite { core with phase := .written slots }
  | publish (slots : Set X) (here : core.phase = .written slots) :
      core.Step .publish { core with phase := .idle }

end Step

/-- What a reader that holds one of the writer's slots has behind it. -/
def Phase.Captures (completed : ι → Nat) (reader : Reader ι X) (x : X) : Phase ι X → Prop
  | .recording slots event => x ∈ slots → reader.isOpen = false ∧
      ∀ n, event reader.stream = some n → ∀ kernel ∈ reader.kernels, kernel < n
  | .waiting slots event => x ∈ slots → reader.isOpen = false ∧
      ∀ kernel ∈ reader.kernels, kernel < event reader.stream
  | .writing slots => x ∈ slots → reader.Finished completed
  | _ => True

/-- From the end of hiding to the end of writing the writer's slots cannot be picked. -/
def Phase.Conceals (shown : Set X) : Phase ι X → Prop
  | .hidden slots | .recording slots _ | .waiting slots _ | .writing slots => ∀ x ∈ slots, x ∉ shown
  | _ => True

structure Core.Safe (core : Core ι ρ X) (shown : Set X) : Prop where
  queued : ∀ r reader, core.readers r = some reader →
    ∀ kernel ∈ reader.kernels, kernel < core.enqueued reader.stream
  plain : ∀ r reader, core.readers r = some reader → reader.guarded = false → reader.isOpen = false
  captured : ∀ r reader x, core.readers r = some reader → x ∈ reader.holds →
    core.phase.Captures core.completed reader x
  concealed : core.phase.Conceals shown

theorem Core.init_safe (shown : Set X) : (Core.init : Core ι ρ X).Safe shown :=
  ⟨by simp [Core.init], by simp [Core.init], by simp [Core.init], trivial⟩

variable {core : Core ι ρ X}

/-- While the writer writes, readers that hold one of its slots are finished. -/
theorem Core.Safe.finished {shown : Set X} (safe : core.Safe shown) {slots : Set X}
    (writing : core.phase = .writing slots) {r : ρ} {reader : Reader ι X}
    (known : core.readers r = some reader) {x : X}
    (held : x ∈ reader.holds) (member : x ∈ slots) : reader.Finished core.completed := by
  have captured := safe.captured r reader x known held
  rw [writing] at captured
  exact captured member

theorem Core.Safe.reshow {shown after : Set X} (safe : core.Safe shown)
    (concealed : core.phase.Conceals after) :
    core.Safe after :=
  ⟨safe.queued, safe.plain, safe.captured, concealed⟩

/-- Readers of the second state were there in the first; none forgot a slot or lost its end. -/
def Core.Follows (core after : Core ι ρ X) : Prop :=
  ∀ r reader, after.readers r = some reader → ∃ before, core.readers r = some before ∧
    before.holds ⊆ reader.holds ∧ (before.Finished core.completed → reader.Finished after.completed)

section Preservation

variable {completed : ι → Nat} {phase : Phase ι X}

/-- A reader that is still open holds none of the slots that matter. -/
theorem Phase.Captures.of_open {reader after : Reader ι X} {x : X}
    (captured : phase.Captures completed reader x) (isOpen : reader.isOpen = true) :
    phase.Captures completed after x := by
  cases phase with
  | idle | concealing _ | hidden _ | written _ => trivial
  | recording _ _ | waiting _ _ | writing _ =>
    intro member
    exact absurd (captured member).1 (by simp [isOpen])

variable {reader : Reader ι X}

theorem Reader.Finished.completes [DecidableEq ι]
    (finished : reader.Finished completed) (s : ι) :
    reader.Finished (update completed s (completed s + 1)) := by
  refine ⟨finished.1, fun kernel inside => ?_⟩
  have done := finished.2 kernel inside
  by_cases here : reader.stream = s
  · subst here
    rw [update_self]
    omega
  · rw [update_of_ne here]
    exact done

theorem Phase.Captures.completes [DecidableEq ι] {x : X}
    (captured : phase.Captures completed reader x) (s : ι) :
    phase.Captures (update completed s (completed s + 1)) reader x := by
  cases phase with
  | idle | concealing _ | hidden _ | written _ => trivial
  | recording _ _ | waiting _ _ => exact captured
  | writing _ =>
    intro member
    exact Reader.Finished.completes (captured member) s

theorem Phase.Captures.of_shown {x : X}
    {shown : Set X} (concealed : phase.Conceals shown) (visible : x ∈ shown) :
      phase.Captures completed reader x := by
  cases phase with
  | idle | concealing _ | hidden _ | written _ => trivial
  | recording _ _ | waiting _ _ | writing _ =>
    intro member
    exact absurd visible (concealed x member)

/-- Holding a slot changes nothing about the others. -/
theorem Phase.Captures.holding {x : X} (captured : phase.Captures completed reader x)
    (holds : Set X) :
    phase.Captures completed { reader with holds := holds } x := by
  cases phase with
  | idle | concealing _ | hidden _ | written _ => trivial
  | recording _ _ | waiting _ _ | writing _ => exact captured

variable {enqueued : ι → Nat}

theorem le_enqueued_update [DecidableEq ι] (s stream : ι) :
    enqueued stream ≤ update enqueued s (enqueued s + 1) stream := by
  by_cases here : stream = s
  · rw [here, update_self]
    exact Nat.le_succ _
  · rw [update_of_ne here]

variable {core after : Core ι ρ X} {shown shownAfter : Set X}

/-- One reader is new or has changed. -/
theorem Core.Safe.withReader [DecidableEq ρ] (safe : core.Safe shown) {r : ρ} {new : Reader ι X}
    (grows : ∀ stream, core.enqueued stream ≤ enqueued stream)
    (queued : ∀ kernel ∈ new.kernels, kernel < enqueued new.stream)
    (plain : new.guarded = false → new.isOpen = false)
    (captured : ∀ x ∈ new.holds, core.phase.Captures core.completed new x)
    (concealed : core.phase.Conceals shownAfter) :
    Core.Safe { core with enqueued := enqueued, readers := update core.readers r (some new) }
      shownAfter := by
  have known : ∀ other reader, update core.readers r (some new) other = some reader →
      reader = new ∨ core.readers other = some reader := by
    intro other reader found
    by_cases here : other = r
    · rw [here, update_self] at found
      exact .inl (Option.some.inj found).symm
    · rw [update_of_ne here] at found
      exact .inr found
  refine ⟨?_, ?_, ?_, concealed⟩
  · intro other reader found kernel member
    rcases known other reader found with rfl | old
    · exact queued kernel member
    · exact (safe.queued other reader old kernel member).trans_le (grows reader.stream)
  · intro other reader found
    rcases known other reader found with rfl | old
    · exact plain
    · exact safe.plain other reader old
  · intro other reader x found held
    rcases known other reader found with rfl | old
    · exact captured x held
    · exact safe.captured other reader x old held

/-- The writer goes on, with the readers as they are. -/
theorem Core.Safe.withPhase (safe : core.Safe shown) {locked : Bool}
    (captured : ∀ r reader x, core.readers r = some reader →
      core.phase.Captures core.completed reader x →
      phase.Captures core.completed reader x)
    (concealed : phase.Conceals shownAfter) :
      Core.Safe { core with phase := phase, locked := locked } shownAfter :=
  ⟨safe.queued, safe.plain, fun r reader x known held => captured r reader x known
    (safe.captured r reader x known held),
    concealed⟩

/-- An event is recorded behind all kernels of its stream. -/
theorem Core.Safe.captures_recorded [DecidableEq ι] (safe : core.Safe shown) {slots : Set X}
    {event : ι → Option Nat}
    (s : ι) {r : ρ} {x : X} (known : core.readers r = some reader)
    (captured : (Phase.recording slots event).Captures core.completed reader x) :
    (Phase.recording slots (update event s (some (core.enqueued s)))).Captures core.completed
      reader x := by
  intro member
  refine ⟨(captured member).1, fun n marked kernel inside => ?_⟩
  by_cases own : reader.stream = s
  · rw [own, update_self] at marked
    have queued := safe.queued r reader known kernel inside
    rw [own] at queued
    exact (Option.some.inj marked) ▸ queued
  · rw [update_of_ne own] at marked
    exact (captured member).2 n marked kernel inside

variable [DecidableEq ι] [DecidableEq ρ] {action : Action ι ρ X}

/-- Steps that hold only visible slots, and after which the writer's slots are concealed, keep the
invariant. -/
theorem Core.Safe.step (safe : core.Safe shown) (taken : core.Step action after)
    (visible : ∀ r x, action = .hold r x →
      x ∈ shown) (concealed : after.phase.Conceals shownAfter) :
    after.Safe shownAfter := by
  cases taken with
  | launch r s fresh =>
    refine safe.withReader (le_enqueued_update s) (fun kernel member => ?_) (fun _ => rfl)
      (fun x held => absurd held (Set.notMem_empty x)) concealed
    rw [List.mem_singleton.mp member, update_self]
    exact Nat.lt_succ_self _
  | openFlow r s fresh free =>
    exact safe.withReader (fun _ => le_rfl) (fun kernel member => absurd member List.not_mem_nil)
      (fun notGuarded => absurd notGuarded (by simp))
        (fun x held => absurd held (Set.notMem_empty x)) concealed
  | enqueue r reader known isOpen =>
    refine safe.withReader (le_enqueued_update reader.stream)
      (fun kernel member => ?_) (safe.plain r reader known)
      (fun x held => (safe.captured r reader x known held).of_open isOpen) concealed
    rcases List.mem_append.mp member with earlier | last
    · exact (safe.queued r reader known kernel earlier).trans_le (le_enqueued_update _ _)
    · rw [List.mem_singleton.mp last, update_self]
      exact Nat.lt_succ_self _
  | closeFlow r reader known isOpen =>
    exact safe.withReader (fun _ => le_rfl) (safe.queued r reader known) (fun _ => rfl)
      (fun x held => (safe.captured r reader x known held).of_open isOpen) concealed
  | complete s queued =>
    exact ⟨safe.queued, safe.plain,
      fun r reader x known held => (safe.captured r reader x known held).completes s,
      concealed⟩
  | hold r x reader known running =>
    refine safe.withReader (fun _ => le_rfl)
      (safe.queued r reader known) (safe.plain r reader known)
      (fun y held => ?_) concealed
    rcases Set.mem_insert_iff.mp held with rfl | before
    · exact .of_shown safe.concealed (visible r y rfl)
    · exact (safe.captured r reader y known before).holding _
  | begin slots idle => exact safe.withPhase (fun _ _ _ _ _ => trivial) concealed
  | hide slots here => exact safe.withPhase (fun _ _ _ _ _ => trivial) concealed
  | lock slots here free closed =>
    refine safe.withPhase (fun r reader x known _ _ =>
      ⟨?_, fun n none => absurd none (by simp)⟩) concealed
    cases guarded : reader.guarded with
    | false => exact safe.plain r reader known guarded
    | true => exact closed r reader known guarded
  | record slots event s here =>
    refine safe.withPhase (fun r reader x known captured => ?_) concealed
    rw [here] at captured
    exact safe.captures_recorded s known captured
  | recorded slots event here =>
    refine safe.withPhase (fun r reader x known captured member => ?_) concealed
    rw [here] at captured
    exact ⟨(captured member).1, (captured member).2 _ rfl⟩
  | unlock taken done => exact safe.withPhase (fun _ _ _ _ captured => captured) concealed
  | startWrite slots event here reached =>
    refine safe.withPhase (fun r reader x known captured member => ?_) concealed
    rw [here] at captured
    exact ⟨(captured member).1, fun kernel inside =>
      lt_of_lt_of_le ((captured member).2 kernel inside) (reached reader.stream)⟩
  | endWrite slots here => exact safe.withPhase (fun _ _ _ _ _ => trivial) concealed
  | publish slots here => exact safe.withPhase (fun _ _ _ _ _ => trivial) concealed

omit [DecidableEq ρ] [DecidableEq ι] in
theorem Core.Follows.refl (core : Core ι ρ X) : core.Follows core := fun _ reader known =>
    ⟨reader, known, subset_rfl, id⟩

omit [DecidableEq ι] in
theorem Core.follows_update {r : ρ} {old new : Reader ι X} (found : core.readers r = some old)
    (holds : old.holds ⊆ new.holds)
    (ends : old.Finished core.completed → new.Finished core.completed) :
    core.Follows { core with
      enqueued := enqueued
      readers := update core.readers r (some new) } := by
  intro other reader known
  by_cases here : other = r
  · subst here
    simp only [update_self, Option.some.injEq] at known
    subst known
    exact ⟨old, found, holds, ends⟩
  · simp only [update_of_ne here] at known
    exact ⟨reader, known, subset_rfl, id⟩

theorem Core.Step.starts (taken : core.Step action after) {r : ρ}
    {s : ι} (starts : action = .launch r s ∨ action = .openFlow r s) :
    after.completed = core.completed ∧ after.phase = core.phase ∧
      ∀ other, other ≠ r → after.readers other = core.readers other := by
  rcases starts with rfl | rfl
  · cases taken
    exact ⟨rfl, rfl, fun other apart => update_of_ne apart _ _⟩
  · cases taken
    exact ⟨rfl, rfl, fun other apart => update_of_ne apart _ _⟩

theorem Core.Step.follows (taken : core.Step action after)
    (notLaunched : ∀ r s, action ≠ .launch r s) (notOpened : ∀ r s, action ≠ .openFlow r s) :
      core.Follows after := by
  cases taken with
  | launch r s fresh => exact absurd rfl (notLaunched r s)
  | openFlow r s fresh free => exact absurd rfl (notOpened r s)
  | enqueue r reader found isOpen =>
    refine Core.follows_update found ?_ ?_
    · exact subset_rfl
    · exact fun finished => absurd finished.1 (by simp [isOpen])
  | closeFlow r reader found isOpen =>
    refine Core.follows_update found ?_ ?_
    · exact subset_rfl
    · exact fun finished => absurd finished.1 (by simp [isOpen])
  | complete s queued => exact fun _ reader known =>
    ⟨reader, known, subset_rfl, fun finished => finished.completes s⟩
  | hold r x reader found running =>
    refine Core.follows_update found ?_ ?_
    · exact Set.subset_insert _ _
    · exact id
  | begin | hide | lock | record | recorded | unlock | startWrite | endWrite | publish =>
    exact fun _ reader known => ⟨reader, known, subset_rfl, id⟩

end Preservation

end EmbedCache.Lib
