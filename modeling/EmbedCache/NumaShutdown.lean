import EmbedCache.Lib.WorkerPool

/-! `~NumaThreadPool` (`thread_pool.cpp`): end markers for the workers of every workgroup.

The destructor queues the same number of markers everywhere, the number of all workers
divided by the number of workgroups, and then joins the workers in the order in which they
were created. -/

namespace EmbedCache.NumaThreadPool

open Lib List Function
open WorkerPool

variable {τ : Type*}

/-- `workers_`: the workgroup of every worker, for the numbers of workers from workgroup `first`
on. -/
def workersFrom (first : Nat) : List Nat → List Nat
  | [] => []
  | numWorkers :: rest => List.replicate numWorkers first ++ workersFrom (first + 1) rest

def workers (workgroups : List Nat) : List Nat := workersFrom 0 workgroups

def numWorkersPerNode (workgroups : List Nat) : Nat :=
  (workers workgroups).length / workgroups.length

inductive Phase
  | queueing (workgroup : Nat)
  | joining (worker : Nat)
  | returned
  deriving DecidableEq, Repr

structure Teardown (τ : Type*) extends WorkerPool τ where
  phase : Phase

inductive Move
  | worker (move : WorkerMove)
  | destructor
  deriving DecidableEq, Repr

namespace Teardown

variable (workgroups : List Nat)

def begin (pool : WorkerPool τ) : Teardown τ :=
  ⟨pool, if (workers workgroups).isEmpty then .returned else .queueing 0⟩

def step (state : Teardown τ) : Move → Option (Teardown τ)
  | .worker move => (state.toWorkerPool.step (workers workgroups) move).map fun pool =>
    { state with toWorkerPool := pool }
  | .destructor =>
    match state.phase with
    | .queueing workgroup =>
      if workgroup < workgroups.length then some { state with
        queues := Function.update state.queues workgroup
          (state.queues workgroup ++ List.replicate (numWorkersPerNode workgroups) none)
        phase := .queueing (workgroup + 1) }
      else some { state with phase := .joining 0 }
    | .joining worker =>
      if worker < (workers workgroups).length then
        if (state.workers worker).isExited then some { state with phase := .joining (worker + 1) }
        else none
      else some { state with phase := .returned }
    | .returned => none

abbrev Reaches : Teardown τ → List Move → Teardown τ → Prop :=
  Run fun first move second => first.step workgroups move = some second

def Stopped (state : Teardown τ) : Prop := ∀ move, state.step workgroups move = none

end Teardown

/-- A pool before its destructor: no markers, and tasks only where `submit` puts them. -/
structure Working (workgroups : List Nat) (pool : WorkerPool τ) : Prop where
  unmarked : ∀ workgroup, none ∉ pool.queues workgroup
  alive : ∀ worker, pool.workers worker ≠ .exited
  ranged : ∀ workgroup, workgroups.length ≤ workgroup → pool.queues workgroup = []
  staffed : workers workgroups = [] → ∀ workgroup, pool.queues workgroup = []

/-- Every run of the destructor ends, and where it can go no further it has returned, every worker
has exited, and every task has been run. -/
structure ShutsDown (workgroups : List Nat) (pool : WorkerPool τ) : Prop where
  bounded : ∃ bound, ∀ moves last, Teardown.Reaches workgroups (.begin workgroups pool) moves last →
    moves.length ≤ bound
  returns : ∀ moves last, Teardown.Reaches workgroups (.begin workgroups pool) moves last →
    last.Stopped workgroups →
    last.phase = .returned
  exits : ∀ moves last, Teardown.Reaches workgroups (.begin workgroups pool) moves last →
    last.Stopped workgroups →
    ∀ worker < (workers workgroups).length, last.workers worker = .exited
  runs : ∀ moves last, Teardown.Reaches workgroups (.begin workgroups pool) moves last →
    last.Stopped workgroups →
    (last.finished : Multiset τ) = pool.tasks (workers workgroups) workgroups.length

/-! ### Numbers of workers -/

theorem count_workersFrom (first : Nat) (workgroups : List Nat) (workgroup : Nat) :
    (workersFrom first workgroups).count workgroup =
      if first ≤ workgroup then workgroups.getD (workgroup - first) 0 else 0 := by
  induction workgroups generalizing first with
  | nil => simp [workersFrom]
  | cons numWorkers rest ih =>
    rw [workersFrom, count_append, ih, count_replicate]
    by_cases here : first = workgroup
    · subst here
      simp
    · have other : (first == workgroup) = false := beq_eq_false_iff_ne.mpr here
      rw [other, if_neg Bool.false_ne_true, Nat.zero_add]
      by_cases later : first ≤ workgroup
      · have shift : workgroup - first = (workgroup - (first + 1)) + 1 := by omega
        rw [if_pos (by omega), if_pos later, shift, getD_cons_succ]
      · rw [if_neg (by omega), if_neg later]

theorem count_workers (workgroups : List Nat) (workgroup : Nat) :
    (workers workgroups).count workgroup = workgroups.getD workgroup 0 := by
  rw [workers, count_workersFrom, if_pos (Nat.zero_le _), Nat.sub_zero]

variable {workgroup : Nat} {workgroups : List Nat}

theorem count_workers_eq (bound : workgroup < workgroups.length) :
    (workers workgroups).count workgroup = workgroups[workgroup] := by
  rw [count_workers, getD_eq_getElem?_getD, List.getElem?_eq_getElem bound, Option.getD_some]

theorem length_workersFrom (first : Nat) (workgroups : List Nat) :
    (workersFrom first workgroups).length = workgroups.sum := by
  induction workgroups generalizing first with
  | nil => rfl
  | cons numWorkers rest ih => rw [workersFrom, length_append, length_replicate, ih, sum_cons]

theorem mem_workers (member : workgroup ∈ workers workgroups) :
    workgroup < workgroups.length := by
  have some_workers := count_pos_iff.mpr member
  rw [count_workers] at some_workers
  by_contra outside
  rw [getD_eq_getElem?_getD, List.getElem?_eq_none (by omega)] at some_workers
  exact absurd some_workers (Nat.lt_irrefl 0)

theorem equal_of_le (le : ∀ numWorkers ∈ workgroups, numWorkers ≤ numWorkersPerNode workgroups) :
    ∀ numWorkers ∈ workgroups, numWorkers = numWorkersPerNode workgroups := by
  have markers : workgroups.length * numWorkersPerNode workgroups ≤ workgroups.sum := by
    rw [numWorkersPerNode, workers, length_workersFrom]
    exact Nat.mul_div_le _ _
  intro numWorkers member
  by_contra different
  have less : workgroups.sum < (workgroups.map fun _ => numWorkersPerNode workgroups).sum := by
    have strict := sum_lt_sum id (fun _ => numWorkersPerNode workgroups) le
      ⟨numWorkers, member, lt_of_le_of_ne (le numWorkers member) different⟩
    rwa [map_id] at strict
  rw [map_const', sum_replicate, smul_eq_mul] at less
  omega

theorem equal_iff : (∀ numWorkers ∈ workgroups, numWorkers = numWorkersPerNode workgroups) ↔
    ∀ one ∈ workgroups, ∀ two ∈ workgroups, one = two := by
  constructor
  · intro markers one first two second
    rw [markers one first, markers two second]
  · intro same numWorkers member
    have all : workgroups = replicate workgroups.length numWorkers :=
      eq_replicate_of_mem fun other listed => same other listed numWorkers member
    have total : workgroups.sum = workgroups.length * numWorkers := by
      rw [all, sum_replicate, length_replicate, smul_eq_mul]
    rw [numWorkersPerNode, workers, length_workersFrom, total,
      Nat.mul_div_cancel_left _ (length_pos_of_mem member)]

/-! ### Runs of the destructor -/

section Runs

variable {workgroups : List Nat} {pool : WorkerPool τ} {state next : Teardown τ} {move : Move}

def queued (workgroups : List Nat) (phase : Phase) (workgroup : Nat) : Nat :=
  match phase with
  | .queueing first => if workgroup < first then numWorkersPerNode workgroups else 0
  | _ => numWorkersPerNode workgroups

def joined (workgroups : List Nat) (phase : Phase) (worker : Nat) : Prop :=
  match phase with
  | .queueing _ => False
  | .joining first => worker < first
  | .returned => worker < (workers workgroups).length

structure Inv (workgroups : List Nat) (state : Teardown τ) : Prop where
  balance : ∀ workgroup < workgroups.length, state.exits (workers workgroups) workgroup +
    (state.queues workgroup).countP Option.isNone = queued workgroups state.phase workgroup
  ordered : ∀ workgroup, WorkerPool.InOrder (workers workgroups) state.toWorkerPool workgroup
  exited : ∀ worker, joined workgroups state.phase worker → state.workers worker = .exited

theorem Working.exits_eq (working : Working workgroups pool) (workgroup : Nat) :
    pool.exits (workers workgroups) workgroup = 0 := by
  apply Finset.sum_eq_zero
  intro worker _
  rw [if_neg]
  rintro ⟨-, exited⟩
  cases state : pool.workers worker with
  | exited => exact working.alive worker state
  | idle => simp [state] at exited
  | busy task => simp [state] at exited

theorem eq_map_some {queue : List (Option τ)} (unmarked : none ∉ queue) :
    queue = (queue.filterMap id).map some := by
  induction queue with
  | nil => rfl
  | cons entry rest ih =>
    cases entry with
    | none => exact absurd mem_cons_self unmarked
    | some task =>
      have tail := ih fun member => unmarked (mem_cons_of_mem _ member)
      simpa using tail

theorem Working.inv (working : Working workgroups pool) :
    Inv workgroups (.begin workgroups pool) := by
  have unmarked : ∀ workgroup, (pool.queues workgroup).countP Option.isNone = 0 := by
    intro workgroup
    rw [countP_eq_zero]
    intro entry member isNone
    rw [Option.isNone_iff_eq_none.mp isNone] at member
    exact working.unmarked workgroup member
  refine ⟨fun workgroup _ => ?_, fun workgroup => ⟨⟨(pool.queues workgroup).filterMap id, 0, ?_⟩,
    fun some_exits => ?_⟩, fun worker already => ?_⟩
  · simp only [Teardown.begin, working.exits_eq, unmarked]
    split
    · rename_i nobody
      simp only [queued, numWorkersPerNode, isEmpty_iff.mp nobody, length_nil, Nat.zero_div]
    · rw [queued, if_neg (Nat.not_lt_zero _)]
  · rw [replicate_zero, append_nil]
    exact eq_map_some (working.unmarked workgroup)
  · rw [show (Teardown.begin workgroups pool).toWorkerPool = pool from rfl,
      working.exits_eq] at some_exits
    exact absurd some_exits (Nat.lt_irrefl 0)
  · simp only [Teardown.begin] at already
    split at already
    · rename_i nobody
      rw [joined, isEmpty_iff.mp nobody] at already
      exact absurd already (Nat.not_lt_zero _)
    · exact absurd already id

theorem Inv.worker (inv : Inv workgroups state) {move : WorkerMove} {after : WorkerPool τ}
    (taken : state.toWorkerPool.step (workers workgroups) move = some after) :
    Inv workgroups { state with toWorkerPool := after } := by
  refine ⟨fun workgroup inside => ?_, fun workgroup => (inv.ordered workgroup).step taken,
    fun worker already => ?_⟩
  · exact (exits_add_markers taken workgroup).trans (inv.balance workgroup inside)
  · exact exited_step (inv.exited worker already) taken

theorem Inv.queue (inv : Inv workgroups state) (here : state.phase = .queueing workgroup)
    (inside : workgroup < workgroups.length) :
    Inv workgroups { state with
      queues := update state.queues workgroup
        (state.queues workgroup ++ List.replicate (numWorkersPerNode workgroups) none)
      phase := .queueing (workgroup + 1) } := by
  refine ⟨fun other bound => ?_, fun other => ?_, fun worker already => absurd already id⟩
  · have balance := inv.balance other bound
    rw [here] at balance
    by_cases same : other = workgroup
    · subst same
      simp only [queued, lt_irrefl, if_false] at balance
      simp only [queued, update_self, countP_append, countP_replicate, Option.isNone_none, if_true,
        Nat.lt_succ_self]
      simp only [exits] at balance ⊢
      omega
    · have order : other < workgroup + 1 ↔ other < workgroup := by omega
      simp only [queued, update_of_ne same, order] at balance ⊢
      exact balance
  · have ordered := inv.ordered other
    by_cases same : other = workgroup
    · subst same
      obtain ⟨waiting, markers, queue⟩ := ordered.sorted
      refine ⟨⟨waiting, markers + numWorkersPerNode workgroups, ?_⟩, fun some_exits => ?_⟩
      · simp only [update_self, queue, append_assoc, replicate_add]
      · simp only [update_self, filterMap_append, filterMap_replicate_of_none, id, append_nil]
        exact ordered.first some_exits
    · refine ⟨?_, fun some_exits => ?_⟩
      · simp only [update_of_ne same]
        exact ordered.sorted
      · simp only [update_of_ne same]
        exact ordered.first some_exits

theorem Inv.step (inv : Inv workgroups state) (taken : state.step workgroups move = some next) :
    Inv workgroups next := by
  cases move with
  | worker move =>
    obtain ⟨after, moved, rfl⟩ := Option.map_eq_some_iff.mp taken
    exact inv.worker moved
  | destructor =>
    simp only [Teardown.step] at taken
    split at taken
    · rename_i workgroup here
      split at taken
      · rename_i inside
        cases taken
        exact inv.queue here inside
      · rename_i outside
        cases taken
        refine ⟨fun other bound => ?_, inv.ordered,
          fun worker already => absurd already (Nat.not_lt_zero _)⟩
        have balance := inv.balance other bound
        rw [here, queued, if_pos (by omega)] at balance
        exact balance
    · rename_i worker here
      split at taken
      · split at taken
        · rename_i exited
          cases taken
          refine ⟨fun other bound => ?_, inv.ordered, fun other already => ?_⟩
          · have balance := inv.balance other bound
            rw [here] at balance
            exact balance
          · rcases Nat.lt_succ_iff_lt_or_eq.mp already with before | rfl
            · exact inv.exited other (by rw [here]; exact before)
            · cases state : state.workers other with
              | exited => rfl
              | idle => simp [state] at exited
              | busy task => simp [state] at exited
        · cases taken
      · rename_i last
        cases taken
        refine ⟨fun other bound => ?_, inv.ordered, fun other already => ?_⟩
        · have balance := inv.balance other bound
          rw [here] at balance
          exact balance
        · refine inv.exited other ?_
          rw [here]
          exact lt_of_lt_of_le already (by omega)
    · cases taken

theorem known_workers : ∀ workgroup ∈ workers workgroups, workgroup < workgroups.length :=
  fun _ => mem_workers

theorem tasks_step (taken : state.step workgroups move = some next) :
    next.tasks (workers workgroups) workgroups.length =
      state.tasks (workers workgroups) workgroups.length := by
  cases move with
  | worker move =>
    obtain ⟨after, moved, rfl⟩ := Option.map_eq_some_iff.mp taken
    exact tasks_step known_workers moved
  | destructor =>
    simp only [Teardown.step] at taken
    split at taken
    · split at taken
      · rename_i workgroup _ inside
        cases taken
        have queues :=
          sum_update (fun _ (queue : List (Option τ)) =>
            ((queue.filterMap id : List τ) : Multiset τ))
          state.queues
            inside (state.queues workgroup ++ List.replicate (numWorkersPerNode workgroups) none)
        rw [filterMap_append, filterMap_replicate_of_none rfl, append_nil] at queues
        simp only [tasks, add_right_cancel queues]
      · cases taken
        rfl
    · split at taken
      · split at taken
        · cases taken
          rfl
        · cases taken
      · cases taken
        rfl
    · cases taken

def ahead (workgroups : List Nat) : Phase → Nat
  | .queueing first => (workgroups.length - first) * (2 * numWorkersPerNode workgroups + 1) +
    (workers workgroups).length + 2
  | .joining worker => (workers workgroups).length - worker + 1
  | .returned => 0

def remaining (workgroups : List Nat) (state : Teardown τ) : Nat :=
  state.work (workers workgroups) workgroups.length + ahead workgroups state.phase

theorem remaining_step (taken : state.step workgroups move = some next) :
    remaining workgroups next < remaining workgroups state := by
  cases move with
  | worker move =>
    obtain ⟨after, moved, rfl⟩ := Option.map_eq_some_iff.mp taken
    have less := work_step known_workers moved
    simp only [remaining]
    omega
  | destructor =>
    simp only [Teardown.step] at taken
    split at taken
    · rename_i workgroup here
      split at taken
      · rename_i inside
        cases taken
        have queues := sum_update (fun _ (queue : List (Option τ)) => 2 * queue.length)
          state.queues inside
          (state.queues workgroup ++ List.replicate (numWorkersPerNode workgroups) none)
        simp only [length_append, length_replicate] at queues
        have shift : (workgroups.length - workgroup) * (2 * numWorkersPerNode workgroups + 1) =
            (workgroups.length - (workgroup + 1)) * (2 * numWorkersPerNode workgroups + 1) +
              (2 * numWorkersPerNode workgroups + 1) := by
          rw [← Nat.add_one_mul]
          congr 1
          omega
        simp only [remaining, work, here, ahead, shift]
        omega
      · cases taken
        simp only [remaining, here, ahead]
        omega
    · rename_i worker here
      split at taken
      · rename_i inside
        split at taken
        · cases taken
          simp only [remaining, here, ahead]
          omega
        · cases taken
      · cases taken
        simp only [remaining, here, ahead]
        omega
    · cases taken

variable {moves : List Move}

theorem reaches_inv (working : Working workgroups pool)
    (run : Teardown.Reaches workgroups (.begin workgroups pool) moves state) :
      Inv workgroups state :=
  run.invariant (Inv workgroups) (fun _ _ _ taken inv => inv.step taken) working.inv

theorem reaches_tasks (run : Teardown.Reaches workgroups (.begin workgroups pool) moves state) :
    state.tasks (workers workgroups) workgroups.length =
      pool.tasks (workers workgroups) workgroups.length :=
  run.invariant (fun state : Teardown τ => state.tasks (workers workgroups) workgroups.length =
    pool.tasks (workers workgroups) workgroups.length)
      (fun _ _ _ taken same => (tasks_step taken).trans same) rfl

theorem stopped_phase (stopped : state.Stopped workgroups) :
    state.phase = .returned ∨ ∃ worker, state.phase =
      .joining worker ∧ worker < (workers workgroups).length ∧
      state.workers worker ≠ .exited := by
  have free := stopped .destructor
  simp only [Teardown.step] at free
  split at free
  · split at free
    · cases free
    · cases free
  · rename_i worker here
    split at free
    · rename_i inside
      split at free
      · cases free
      · rename_i alive
        refine .inr ⟨worker, here, inside, fun exited => alive ?_⟩
        rw [exited]
        rfl
    · cases free
  · rename_i here
    exact .inl here

variable (equal : ∀ numWorkers ∈ workgroups, numWorkers = numWorkersPerNode workgroups)
  (inv : Inv workgroups state)

include equal inv in
/-- With as many markers as workers, the destructor returns when nothing can move. -/
theorem returned_of_stopped (stopped : state.Stopped workgroups) : state.phase = .returned := by
  rcases stopped_phase stopped with returned | ⟨worker, here, inside, alive⟩
  · exact returned
  · obtain ⟨workgroup, member⟩ : ∃ workgroup, (workers workgroups)[worker]? = some workgroup :=
      ⟨_, List.getElem?_eq_getElem inside⟩
    have idle := fun move => Option.map_eq_none_iff.mp (stopped (.worker move))
    obtain ⟨-, empty⟩ := (stopped_cases idle member).resolve_left alive
    have bound := mem_workers (mem_of_getElem? member)
    -- all markers of the workgroup have been taken, so all its workers have exited
    have balance := inv.balance workgroup bound
    rw [empty, here] at balance
    refine absurd (exited_of_exits ?_ member) alive
    rw [count_workers_eq bound, equal _ (getElem_mem bound)]
    exact balance

include equal inv in
theorem finished_of_returned (returned : state.phase = .returned)
    (some_workers : workers workgroups ≠ []) :
    (state.finished : Multiset τ) = state.tasks (workers workgroups) workgroups.length := by
  have exited : ∀ worker < (workers workgroups).length, state.workers worker = .exited := by
    intro worker inside
    exact inv.exited worker (by rw [returned]; exact inside)
  have positive : 0 < numWorkersPerNode workgroups := by
    obtain ⟨workgroup, member⟩ := exists_mem_of_ne_nil _ some_workers
    have bound := mem_workers member
    have count := count_pos_iff.mpr member
    rwa [count_workers_eq bound, equal _ (getElem_mem bound)] at count
  have waiting : ∀ workgroup ∈ Finset.range workgroups.length,
      (((state.queues workgroup).filterMap id : List τ) : Multiset τ) = 0 := by
    intro workgroup inside
    have bound := Finset.mem_range.mp inside
    have all : state.exits (workers workgroups) workgroup = numWorkersPerNode workgroups := by
      rw [← equal _ (getElem_mem bound), ← count_workers_eq bound, ← sum_members]
      apply Finset.sum_congr rfl
      intro worker inside
      rw [exited worker (Finset.mem_range.mp inside)]
      simp
    rw [(inv.ordered workgroup).first (by rw [all]; exact positive)]
    rfl
  have busy : ∀ worker ∈ Finset.range (workers workgroups).length,
      (state.workers worker).task = 0 := by
    intro worker inside
    rw [exited worker (Finset.mem_range.mp inside)]
    rfl
  rw [tasks, Finset.sum_eq_zero waiting, Finset.sum_eq_zero busy, add_zero, add_zero]

/-- A workgroup with more workers than markers keeps one for ever, and the destructor waits for
it. -/
theorem not_returned (bound : workgroup < workgroups.length)
    (more : numWorkersPerNode workgroups < workgroups[workgroup]) (inv : Inv workgroups state) :
    state.phase ≠ .returned := by
  intro returned
  have all : state.exits (workers workgroups) workgroup = workgroups[workgroup] := by
    rw [← count_workers_eq bound, ← sum_members]
    apply Finset.sum_congr rfl
    intro worker inside
    rw [inv.exited worker (by rw [returned]; exact Finset.mem_range.mp inside)]
    simp
  have balance := inv.balance workgroup bound
  rw [returned, all] at balance
  simp only [queued] at balance
  omega

theorem nobody_finishes (working : Working workgroups pool) (nobody : workers workgroups = [])
    (run : Teardown.Reaches workgroups (.begin workgroups pool) moves state) :
    (state.finished : Multiset τ) = state.tasks (workers workgroups) workgroups.length := by
  have still : state = .begin workgroups pool := by
    cases run with
    | done => rfl
    | @step _ _ _ move _ taken _ =>
      cases move with
      | worker move => cases move <;> simp [Teardown.step, step, nobody] at taken
      | destructor => simp [Teardown.step, Teardown.begin, nobody] at taken
  have waiting : ∀ workgroup ∈ Finset.range workgroups.length,
      (((state.queues workgroup).filterMap id : List τ) : Multiset τ) = 0 := by
    intro workgroup _
    rw [still, show (Teardown.begin workgroups pool).queues =
      pool.queues from rfl, working.staffed nobody workgroup]
    rfl
  rw [tasks, Finset.sum_eq_zero waiting, nobody, length_nil, Finset.sum_range_zero,
    add_zero, add_zero]

end Runs

/-- The destructor shuts the pool down in every run exactly when all workgroups have equally many
workers. -/
theorem shuts_down_iff (workgroups : List Nat) (pool : WorkerPool τ)
    (working : Working workgroups pool) :
    ShutsDown workgroups pool ↔ ∀ one ∈ workgroups, ∀ two ∈ workgroups, one = two := by
  rw [← equal_iff]
  constructor
  · intro shuts
    apply equal_of_le
    intro numWorkers member
    by_contra more
    obtain ⟨workgroup, bound, rfl⟩ := getElem_of_mem member
    obtain ⟨moves, last, run, stuck⟩ := Run.exists_stopped (remaining workgroups)
      (fun _ _ _ taken => remaining_step taken) (Teardown.begin workgroups pool)
    have stopped : last.Stopped workgroups := fun move =>
      Option.eq_none_iff_forall_ne_some.mpr (stuck move)
    exact not_returned bound (by omega) (reaches_inv working run)
      (shuts.returns moves last run stopped)
  · intro equal
    have returns : ∀ moves last, Teardown.Reaches workgroups (.begin workgroups pool) moves last →
        last.Stopped workgroups → last.phase = .returned := fun moves last run stopped =>
      returned_of_stopped equal (reaches_inv working run) stopped
    refine ⟨⟨remaining workgroups (.begin workgroups pool), fun moves last run => ?_⟩, returns,
      fun moves last run stopped worker inside => ?_, fun moves last run stopped => ?_⟩
    · have length := run.length_le (remaining workgroups) fun _ _ _ taken => remaining_step taken
      omega
    · exact (reaches_inv working run).exited worker
        (by rw [returns moves last run stopped]; exact inside)
    · rw [← reaches_tasks run]
      by_cases nobody : workers workgroups = []
      · exact nobody_finishes working nobody run
      · exact finished_of_returned equal (reaches_inv working run)
          (returns moves last run stopped) nobody

def busyPool : WorkerPool Nat :=
  ⟨fun workgroup => if workgroup = 0 then [some 1, some 2] else [],
    fun worker => if worker = 0 then .busy 0 else .idle, []⟩

theorem busyPool_working (one two : Nat) (some_workers : 0 < one) :
    Working [one, two] busyPool := by
  refine ⟨fun workgroup => ?_, fun worker => ?_, fun workgroup outside => ?_, fun nobody => ?_⟩
  · simp only [busyPool]
    split <;> simp
  · simp only [busyPool]
    split <;> simp
  · have second : workgroup ≠ 0 := by
      rintro rfl
      exact absurd outside (by simp)
    rw [busyPool]
    exact if_neg second
  · have length := congrArg List.length nobody
    rw [workers, length_workersFrom, length_nil, sum_cons] at length
    omega

/-- Two workgroups of two workers. -/
theorem shuts_down_two_pairs : ShutsDown [2, 2] busyPool :=
  (shuts_down_iff [2, 2] busyPool (busyPool_working 2 2 (by decide))).mpr (by decide)

/-- Workgroups of one and of three workers get two markers each: in no run does the destructor
return. -/
theorem shutdown_hangs :
    numWorkersPerNode [1, 3] = 2 ∧
    ∀ moves last, Teardown.Reaches [1, 3] (.begin [1, 3] busyPool) moves last →
      last.phase ≠ .returned :=
  ⟨by decide, fun _ _ run =>
    not_returned (show 1 < [1, 3].length by decide) (by decide)
      (reaches_inv (busyPool_working 1 3 (by decide)) run)⟩

end EmbedCache.NumaThreadPool
