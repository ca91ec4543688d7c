import EmbedCache.Lib.Runs

/-! A barrier that is counted down by the tasks of a pool.

A launcher, itself a task, submits batches of tasks one after the other and waits for an
event before each of them. Workers take the submitted tasks in any order; whoever brings
the count to zero signals the barrier. A wait that fails ends the launcher: the exception
stays in a future that nobody asks. -/

namespace EmbedCache.Lib

open List

variable {τ σ : Type*}

/-- Batches still to be submitted carry the result of the wait before them. -/
structure Countdown (τ σ : Type*) where
  pending : List (Bool × List τ)
  broken : Bool
  queue : List τ
  remaining : Nat
  signalled : Bool
  state : σ

inductive PoolMove
  | submit
  | run (position : Nat)

namespace Countdown

def start (batches : List (Bool × List τ)) (state : σ) : Countdown τ σ where
  pending := batches
  broken := false
  queue := []
  remaining := (batches.map fun batch => batch.2.length).sum
  signalled := false
  state := state

variable (effect : τ → σ → σ) (pool : Countdown τ σ)

def step : PoolMove → Option (Countdown τ σ)
  | .submit =>
    match pool.broken, pool.pending with
    | true, _ => none
    | false, [] => none
    | false, (false, _) :: _ => some { pool with broken := true }
    | false, (true, batch) :: rest =>
      some { pool with pending := rest, queue := pool.queue ++ batch }
  | .run position =>
    match pool.queue[position]? with
    | none => none
    | some task => some { pool with
        queue := pool.queue.eraseIdx position
        remaining := pool.remaining - 1
        signalled := pool.signalled || pool.remaining == 1
        state := effect task pool.state }

abbrev Reaches : Countdown τ σ → List PoolMove → Countdown τ σ → Prop :=
  Run fun first move second => first.step effect move = some second

def Stopped : Prop := ∀ move, pool.step effect move = none

structure Balanced (pool : Countdown τ σ) : Prop where
  count : pool.remaining = pool.queue.length + (pool.pending.map fun batch => batch.2.length).sum
  signal : pool.signalled = true ↔ pool.remaining = 0
  failed : pool.broken = true → ∃ batch ∈ pool.pending, batch.1 = false

section

variable {effect : τ → σ → σ} {first second : Countdown τ σ} {move : PoolMove}

variable (taken : first.step effect move = some second)

include taken in
theorem step_cases :
    (first.broken = false ∧ (∃ batch rest, first.pending = (false, batch) :: rest) ∧
        second = { first with broken := true }) ∨
      (first.broken = false ∧ ∃ batch rest, first.pending = (true, batch) :: rest ∧
        second = { first with pending := rest, queue := first.queue ++ batch }) ∨
      ∃ position task, first.queue[position]? = some task ∧ second = { first with
        queue := first.queue.eraseIdx position
        remaining := first.remaining - 1
        signalled := first.signalled || first.remaining == 1
        state := effect task first.state } := by
  cases move with
  | submit =>
    simp only [step] at taken
    split at taken
    · exact absurd taken (by simp)
    · exact absurd taken (by simp)
    · rename_i batch rest intact next
      exact .inl ⟨intact, ⟨batch, rest, next⟩, (Option.some.inj taken).symm⟩
    · rename_i batch rest intact next
      exact .inr (.inl ⟨intact, batch, rest, next, (Option.some.inj taken).symm⟩)
  | run position =>
    simp only [step] at taken
    split at taken
    · exact absurd taken (by simp)
    · rename_i task found
      exact .inr (.inr ⟨position, task, found, (Option.some.inj taken).symm⟩)

theorem balanced_start {batches : List (Bool × List τ)} (nonempty : batches ≠ [])
    (tasks : ∀ batch ∈ batches, batch.2 ≠ []) (state : σ) : (start batches state).Balanced where
  count := by simp [start]
  signal := by
    obtain ⟨batch, rest, rfl⟩ := exists_cons_of_ne_nil nonempty
    have length := length_pos_iff.mpr (tasks batch mem_cons_self)
    simp only [start, Bool.false_eq_true, map_cons, sum_cons, false_iff]
    omega
  failed := by simp [start]

include taken in
theorem step_balanced (balanced : first.Balanced) :
    second.Balanced := by
  have count := balanced.count
  have signal := balanced.signal
  rcases step_cases taken with ⟨_, ⟨batch, rest, next⟩, rfl⟩ | ⟨intact, batch, rest, next, rfl⟩ |
    ⟨position, task, found, rfl⟩
  · exact ⟨count, signal, fun _ => ⟨(false, batch), by simp [next], rfl⟩⟩
  · refine ⟨?_, signal, fun failed => absurd failed (by simp [intact])⟩
    simp only [next, map_cons, sum_cons, length_append] at count ⊢
    omega
  · have bound : position < first.queue.length := (List.getElem?_eq_some_iff.mp found).1
    refine ⟨?_, ?_, balanced.failed⟩
    · simp only [length_eraseIdx_of_lt bound]
      omega
    · have unsignalled : first.signalled = false := by
        cases value : first.signalled with
        | false => rfl
        | true => have := signal.mp value; omega
      simp only [unsignalled, Bool.false_or, beq_iff_eq]
      omega

def weight : Nat :=
  pool.remaining + pool.pending.length + if pool.broken then 0 else 1

include taken in
theorem step_weight (balanced : first.Balanced) :
    second.weight < first.weight := by
  have count := balanced.count
  rcases step_cases taken with ⟨intact, _, rfl⟩ | ⟨_, batch, rest, next, rfl⟩ | ⟨position,
    task, found, rfl⟩
  · simp [weight, intact]
  · simp [weight, next]
  · have bound : position < first.queue.length := (List.getElem?_eq_some_iff.mp found).1
    simp only [weight]
    omega

theorem exists_stopped (balanced : pool.Balanced) :
    ∃ moves final, Reaches effect pool moves final ∧ final.Stopped effect := by
  induction size : pool.weight using Nat.strong_induction_on generalizing pool with
  | _ size ih =>
    by_cases stopped : pool.Stopped effect
    · exact ⟨[], pool, .done pool, stopped⟩
    · simp only [Stopped, not_forall] at stopped
      obtain ⟨move, enabled⟩ := stopped
      obtain ⟨next, taken⟩ := Option.ne_none_iff_exists'.mp enabled
      obtain ⟨moves, final, run, stopped⟩ :=
        ih next.weight (size ▸ step_weight taken balanced) next (step_balanced taken balanced) rfl
      exact ⟨move :: moves, final, .step taken run, stopped⟩

include taken in
theorem step_ready (ready : ∀ batch ∈ first.pending, batch.1 = true) :
    ∀ batch ∈ second.pending, batch.1 = true := by
  rcases step_cases taken with ⟨_, _, rfl⟩ | ⟨_, batch, rest, next, rfl⟩ | ⟨_, _, _, rfl⟩
  · exact ready
  · intro other member
    exact ready other (next ▸ mem_cons_of_mem _ member)
  · exact ready

include taken in
theorem step_withheld {batch : Bool × List τ}
    (withheld : batch ∈ first.pending) (fails : batch.1 = false) : batch ∈ second.pending := by
  rcases step_cases taken with ⟨_, _, rfl⟩ | ⟨_, other, rest, next, rfl⟩ | ⟨_, _, _, rfl⟩
  · exact withheld
  · rw [next, mem_cons] at withheld
    rcases withheld with rfl | later
    · exact absurd fails (by simp)
    · exact later
  · exact withheld

theorem signalled_of_stopped (stopped : first.Stopped effect) (balanced : first.Balanced)
    (ready : ∀ batch ∈ first.pending, batch.1 = true) : first.signalled = true := by
  have intact : first.broken = false := by
    cases value : first.broken with
    | false => rfl
    | true =>
      obtain ⟨batch, member, fails⟩ := balanced.failed value
      exact absurd (ready batch member) (by simp [fails])
  have submitted : first.pending = [] := by
    cases next : first.pending with
    | nil => rfl
    | cons batch rest =>
      have waits := ready batch (next ▸ mem_cons_self)
      have disabled := stopped .submit
      obtain ⟨flag, tasks⟩ := batch
      subst waits
      simp [step, intact, next] at disabled
  have idle : first.queue = [] := by
    cases next : first.queue with
    | nil => rfl
    | cons task rest =>
      have disabled := stopped (.run 0)
      simp [step, next] at disabled
  rw [balanced.signal, balanced.count, submitted, idle]
  rfl

end

/-- When everything has come to a stop, the barrier is signalled if and only if no wait of the
launcher has failed. -/
theorem signalled_iff {effect : τ → σ → σ} {batches : List (Bool × List τ)} {state : σ}
    (nonempty : batches ≠ [])
    (tasks : ∀ batch ∈ batches, batch.2 ≠ []) {moves : List PoolMove} {final : Countdown τ σ}
    (run : Reaches effect (start batches state) moves final) (stopped : final.Stopped effect) :
    final.signalled = true ↔ ∀ batch ∈ batches, batch.1 = true := by
  have balanced : final.Balanced :=
    run.invariant Balanced (fun _ _ _ taken => step_balanced taken)
      (balanced_start nonempty tasks state)
  constructor
  · intro signalled batch member
    by_contra fails
    have withheld : batch ∈ final.pending := run.invariant (fun pool => batch ∈ pool.pending)
      (fun _ _ _ taken inside => step_withheld taken inside (by simpa using fails)) member
    have count := balanced.count
    have length := length_pos_iff.mpr (tasks batch member)
    have part : batch.2.length ≤ (final.pending.map fun batch => batch.2.length).sum :=
      single_le_sum (fun _ _ => Nat.zero_le _) _ (mem_map.mpr ⟨batch, withheld, rfl⟩)
    have zero := balanced.signal.mp signalled
    omega
  · intro ready
    apply signalled_of_stopped stopped balanced
    exact run.invariant (fun pool => ∀ batch ∈ pool.pending, batch.1 = true)
      (fun _ _ _ taken => step_ready taken) ready

end Countdown

end EmbedCache.Lib
