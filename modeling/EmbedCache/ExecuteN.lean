import EmbedCache.Lib.WorkerPool

/-! `execute_n` (`thread_pool_base.hpp`, `thread_pool.cpp`): bursts of tasks, and a wait for their
futures.

The futures are waited for in the order of the tasks, and the first that holds an exception
throws it on. Other callers put tasks of their own into the same queues. -/

namespace EmbedCache.ThreadPool

open Lib List Function Option

structure Shape where
  numWorkgroups : Nat
  workers : List Nat
  some_workgroups : 0 < numWorkgroups
  ranged : ∀ workgroup ∈ workers, workgroup < numWorkgroups

inductive Job
  | own (index : Nat)
  | other (name : Nat)
  deriving DecidableEq, Repr

structure Burst where
  workgroup : Int
  numTasks : Nat
  deriving DecidableEq, Repr

/-- What `submit_n` checks before it queues anything. -/
def Shape.Accepts (pool : Shape) (burst : Burst) : Prop :=
  (0 ≤ burst.workgroup ∧ burst.workgroup < pool.numWorkgroups) ∧ pool.workers ≠ []

instance (pool : Shape) (burst : Burst) : Decidable (pool.Accepts burst) :=
  inferInstanceAs (Decidable (_ ∧ _))

/-- The bursts of the overload with iterators: `it` goes round the list of workgroups. -/
def Shape.burstsFrom (pool : Shape) (workgroups : List Int) (tasksPerWorkgroup : Nat) :
    (fuel it numTasks : Nat) → List Burst
  | 0, _, _ => []
  | fuel + 1, it, numTasks =>
    if numTasks = 0 then []
    else ⟨(workgroups.getD (it % workgroups.length) 0).tmod pool.numWorkgroups,
      min numTasks tasksPerWorkgroup⟩ ::
      pool.burstsFrom workgroups tasksPerWorkgroup fuel (it + 1) (numTasks - tasksPerWorkgroup)

/-- The two overloads of `execute_n`. -/
inductive Request
  | single (numTasks workgroup : Int)
  | spread (numTasks : Int) (workgroups : List Int) (tasksPerWorkgroup : Int)

/-- The bursts of a call; `none` if the list of workgroups is empty. -/
def Request.bursts (pool : Shape) : Request → Option (List Burst)
  | .single numTasks workgroup =>
    if numTasks ≤ 0 then some [] else some [⟨workgroup, numTasks.toNat⟩]
  | .spread numTasks workgroups tasksPerWorkgroup =>
    if numTasks ≤ 0 then some []
    else if workgroups = [] then none
    else some
      (pool.burstsFrom workgroups (max tasksPerWorkgroup 1).toNat numTasks.toNat 0 numTasks.toNat)

inductive Phase
  | submitting (bursts : List Burst)
  | awaiting (index : Nat)
  | left (threw : Bool)
  deriving DecidableEq, Repr

structure Execution extends WorkerPool Job where
  phase : Phase
  submitted : Nat

inductive Move
  | worker (move : WorkerMove)
  | elsewhere (workgroup name : Nat)
  | caller
  deriving DecidableEq, Repr

namespace Execution

variable (pool : Shape)

def begin (request : Request) (start : WorkerPool Job) : Execution :=
  ⟨start, match request.bursts pool with
    | none => .left true
    | some bursts => .submitting bursts, 0⟩

variable (throws : Nat → Bool)

/-- The caller's next move; `throws` tells which of its tasks throw. -/
def callerStep (state : Execution) : Option Execution :=
  match state.phase with
  | .submitting [] => some { state with phase := .awaiting 0 }
  | .submitting (burst :: rest) =>
    if pool.Accepts burst then some { state with
      queues :=
        Function.update state.queues burst.workgroup.toNat (state.queues burst.workgroup.toNat ++
        (List.range burst.numTasks).map fun i => some (.own (state.submitted + i)))
      phase := .submitting rest
      submitted := state.submitted + burst.numTasks }
    else some { state with phase := .left true }
  | .awaiting index =>
    if index < state.submitted then
      if .own index ∈ state.finished then
        some { state with phase := if throws index then .left true else .awaiting (index + 1) }
      else none
    else some { state with phase := .left false }
  | .left _ => none

def step (state : Execution) : Move → Option Execution
  | .worker move => (state.toWorkerPool.step pool.workers move).map fun after =>
    { state with toWorkerPool := after }
  | .elsewhere workgroup name => some { state with
      queues :=
        Function.update state.queues workgroup (state.queues workgroup ++ [some (.other name)]) }
  | .caller => state.callerStep pool throws

abbrev Reaches : Execution → List Move → Execution → Prop :=
  Run fun first move second => first.step pool throws move = some second

end Execution

structure Foreign (start : WorkerPool Job) : Prop where
  queues : ∀ workgroup index, some (.own index) ∉ start.queues workgroup
  workers : ∀ worker index, start.workers worker ≠ .busy (.own index)
  finished : ∀ index, .own index ∉ start.finished

def Barrier (pool : Shape) (request : Request) (throws : Nat → Bool) (start : WorkerPool Job) :
    Prop :=
  ∀ moves last, Execution.Reaches pool throws (.begin pool request start) moves last →
    ∀ threw, last.phase = .left threw → ∀ index < last.submitted, .own index ∈ last.finished

variable (bursts : List Burst)

def homes : List Nat :=
  bursts.flatMap fun burst => List.replicate burst.numTasks burst.workgroup.toNat

/-- Nothing is submitted, or everything is and no task that can finish throws, unless it is the last
one. The caller gets to a task only if those before it can finish too. -/
def Orderly (pool : Shape) (request : Request) (throws : Nat → Bool) : Prop :=
  match request.bursts pool with
  | none => True
  | some bursts =>
    (∃ burst rest, bursts = burst :: rest ∧ ¬ pool.Accepts burst) ∨
    (∀ burst ∈ bursts, pool.Accepts burst) ∧
      ∀ index, index + 1 < (homes bursts).length →
        (∀ workgroup ∈ (homes bursts).take (index + 1), workgroup ∈ pool.workers) →
        throws index = false

section Sufficient

variable {pool : Shape} {throws : Nat → Bool} {state next : Execution} {move : Move}

theorem frame (taken : state.step pool throws move = some next) (notCaller : move ≠ .caller) :
    next.phase = state.phase ∧ next.submitted = state.submitted ∧
      ∀ job ∈ state.finished, job ∈ next.finished := by
  cases move with
  | worker move =>
    obtain ⟨after, moved, rfl⟩ := map_eq_some_iff.mp taken
    refine ⟨rfl, rfl, fun job member => ?_⟩
    cases WorkerPool.moved_of_step moved with
    | took => exact member
    | exited => exact member
    | finished => exact mem_append_left _ member
  | elsewhere workgroup name =>
    cases taken
    exact ⟨rfl, rfl, fun _ member => member⟩
  | caller => exact absurd rfl notCaller

def Refused (state : Execution) : Prop :=
  state.submitted = 0 ∧ (state.phase = .submitting bursts ∨ state.phase = .left true)

theorem Refused.step {burst : Burst} {rest : List Burst} (refused : ¬ pool.Accepts burst)
    (before : Refused (burst :: rest) state) (taken : state.step pool throws move = some next) :
    Refused (burst :: rest) next := by
  by_cases caller : move = .caller
  · subst caller
    obtain ⟨none, submitting | left⟩ := before
    · simp only [Execution.step, Execution.callerStep, submitting, if_neg refused] at taken
      cases taken
      exact ⟨none, .inr rfl⟩
    · simp only [Execution.step, Execution.callerStep, left] at taken
      cases taken
  · obtain ⟨phase, submitted, -⟩ := frame taken caller
    rw [Refused, phase, submitted]
    exact before

def Home : Job → Nat → Prop
  | .own index, workgroup => (homes bursts)[index]? = some workgroup
  | .other _, _ => True

def Served (pool : Shape) (bursts : List Burst) : Job → Prop
  | .own index => ∃ workgroup ∈ pool.workers, (homes bursts)[index]? = some workgroup
  | .other _ => True

theorem served_of_home (job : Job) (workgroup : Nat) (worked : workgroup ∈ pool.workers)
    (home : Home bursts job workgroup) : Served pool bursts job := by
  cases job with
  | own index => exact ⟨workgroup, worked, home⟩
  | other name => trivial

theorem homes_append (done rest : List Burst) : homes (done ++ rest) = homes done ++ homes rest :=
  flatMap_append

theorem homes_cons (burst : Burst) (rest : List Burst) :
    homes (burst :: rest) = replicate burst.numTasks burst.workgroup.toNat ++ homes rest :=
  flatMap_cons

structure Submits (pool : Shape) (bursts : List Burst) (state : Execution) : Prop where
  placed : state.Placed (Home bursts) (Served pool bursts)
  submitting : ∀ rest, state.phase = .submitting rest → ∃ done, bursts = done ++ rest ∧
    state.submitted = (homes done).length
  awaiting : ∀ index, state.phase = .awaiting index →
    state.submitted = (homes bursts).length ∧ ∀ earlier < index, .own earlier ∈ state.finished
  left : ∀ threw, state.phase = .left threw → ∀ index < state.submitted, .own index ∈ state.finished

variable {bursts : List Burst}

theorem Submits.worked (before : Submits pool bursts state) {index : Nat}
    (finished : ∀ earlier < index, .own earlier ∈ state.finished) :
    ∀ workgroup ∈ (homes bursts).take index, workgroup ∈ pool.workers := by
  intro workgroup member
  obtain ⟨earlier, bound, home⟩ := getElem_of_mem member
  have less : earlier < index := lt_of_lt_of_le bound (length_take_le _ _)
  obtain ⟨other, worked, same⟩ := before.placed.finished _ (finished earlier less)
  have here : (homes bursts)[earlier]? = some workgroup := by
    rw [← home, getElem_take, getElem?_eq_getElem]
  have equal : some other = some workgroup := same.symm.trans here
  exact some.inj equal ▸ worked

/-- The tasks of a burst get the indices after those of the bursts before. -/
theorem Submits.queue (before : Submits pool bursts state) {done rest : List Burst} {burst : Burst}
    (whole : bursts = done ++ burst :: rest) (submitted : state.submitted = (homes done).length) :
    ∀ workgroup job, some job ∈ update state.queues burst.workgroup.toNat
      (state.queues burst.workgroup.toNat ++
      (range burst.numTasks).map fun i => some (.own (state.submitted + i))) workgroup →
        Home bursts job workgroup := by
  intro workgroup job member
  by_cases here : workgroup = burst.workgroup.toNat
  · subst here
    rw [update_self] at member
    rcases mem_append.mp member with earlier | new
    · exact before.placed.queues _ job earlier
    · obtain ⟨i, bound, same⟩ := mem_map.mp new
      rw [mem_range] at bound
      cases same
      rw [Home, submitted, whole, homes_append, homes_cons,
        getElem?_append_right (Nat.le_add_right _ _),
        Nat.add_sub_cancel_left, getElem?_append_left (by rw [length_replicate]; exact bound),
        getElem?_replicate, if_pos bound]
  · rw [update_of_ne here] at member
    exact before.placed.queues workgroup job member

variable (accepted : ∀ burst ∈ bursts, pool.Accepts burst)
  (quiet : ∀ index, index + 1 < (homes bursts).length →
  (∀ workgroup ∈ (homes bursts).take (index + 1), workgroup ∈ pool.workers) → throws index = false)
  (before : Submits pool bursts state)

include accepted quiet before in
theorem Submits.caller (taken : state.callerStep pool throws = some next) :
    Submits pool bursts next := by
  simp only [Execution.callerStep] at taken
  split at taken
  · rename_i phase
    cases taken
    obtain ⟨done, whole, submitted⟩ := before.submitting [] phase
    rw [append_nil] at whole
    refine ⟨before.placed, fun _ other => (nomatch other), fun index here => ?_, fun _ other =>
      (nomatch other)⟩
    cases here
    exact ⟨whole ▸ submitted, fun _ none => absurd none (Nat.not_lt_zero _)⟩
  · rename_i burst rest phase
    obtain ⟨done, whole, submitted⟩ := before.submitting (burst :: rest) phase
    rw [if_pos (accepted burst (whole ▸ mem_append_right _ mem_cons_self))] at taken
    cases taken
    refine ⟨⟨before.queue whole submitted, before.placed.workers, before.placed.finished⟩,
      fun later here => ?_,
      fun _ other => (nomatch other), fun _ other => (nomatch other)⟩
    cases here
    refine ⟨done ++ [burst], by rw [whole, append_assoc]; rfl, ?_⟩
    rw [homes_append, homes_cons, length_append, length_append, length_replicate, ← submitted]
    rfl
  · rename_i index phase
    obtain ⟨submitted, earlier⟩ := before.awaiting index phase
    split at taken
    · rename_i inside
      split at taken
      · rename_i finished
        -- all futures up to this one hold results
        have upTo : ∀ other < index + 1, .own other ∈ state.finished := by
          intro other bound
          rcases Nat.lt_succ_iff_lt_or_eq.mp bound with less | rfl
          · exact earlier other less
          · exact finished
        cases taken
        refine ⟨before.placed, fun later here => ?_, fun following here => ?_, fun threw here => ?_⟩
        · simp only at here
          split at here <;> cases here
        · simp only at here
          split at here
          · cases here
          · cases here
            exact ⟨submitted, upTo⟩
        · simp only at here
          split at here
          · rename_i throwing
            intro other bound
            change other < state.submitted at bound
            refine upTo other ?_
            by_contra later
            rw [quiet index (by omega) (before.worked upTo)] at throwing
            exact absurd throwing Bool.false_ne_true
          · cases here
      · cases taken
    · rename_i last
      cases taken
      refine ⟨before.placed, fun _ other => (nomatch other), fun _ other => (nomatch other),
        fun _ _ other bound => ?_⟩
      change other < state.submitted at bound
      exact earlier other (by omega)
  · cases taken

/-- Workers keep tasks where they belong, and other callers add none of the call's. -/
theorem Submits.elsewhere (before : Submits pool bursts state)
    (taken : state.step pool throws move = some next)
    (notCaller : move ≠ .caller) : next.Placed (Home bursts) (Served pool bursts) := by
  cases move with
  | worker move =>
    obtain ⟨after, moved, rfl⟩ := map_eq_some_iff.mp taken
    exact before.placed.step (served_of_home bursts) moved
  | elsewhere workgroup name =>
    cases taken
    refine ⟨fun other job member => ?_, before.placed.workers, before.placed.finished⟩
    by_cases here : other = workgroup
    · subst here
      simp only [update_self, mem_append, mem_singleton, some.injEq] at member
      rcases member with earlier | rfl
      · exact before.placed.queues other job earlier
      · trivial
    · simp only [update_of_ne here] at member
      exact before.placed.queues other job member
  | caller => exact absurd rfl notCaller

include accepted quiet before in
theorem Submits.step (taken : state.step pool throws move = some next) :
    Submits pool bursts next := by
  by_cases caller : move = .caller
  · subst caller
    exact before.caller accepted quiet taken
  · obtain ⟨phase, submitted, kept⟩ := frame taken caller
    refine ⟨before.elsewhere taken caller, fun rest here => ?_, fun index here => ?_,
      fun threw here index bound => ?_⟩
    · rw [submitted]
      exact before.submitting rest (phase ▸ here)
    · rw [submitted]
      obtain ⟨all, earlier⟩ := before.awaiting index (phase ▸ here)
      exact ⟨all, fun other bound => kept _ (earlier other bound)⟩
    · exact kept _ (before.left threw (phase ▸ here) index (submitted ▸ bound))

variable {start : WorkerPool Job}

theorem Foreign.placed (foreign : Foreign start) (bursts : List Burst) :
    start.Placed (Home bursts) (Served pool bursts) := by
  refine ⟨fun workgroup job member => ?_, fun worker job busy => ?_, fun job done => ?_⟩
  · cases job with
    | own index => exact absurd member (foreign.queues workgroup index)
    | other name => trivial
  · cases job with
    | own index => exact absurd busy (foreign.workers worker index)
    | other name => trivial
  · cases job with
    | own index => exact absurd done (foreign.finished index)
    | other name => trivial

theorem Foreign.submits (foreign : Foreign start) {state : Execution}
    (same : state.toWorkerPool = start)
    (phase : state.phase = .submitting bursts) (none : state.submitted = 0) :
    Submits pool bursts state := by
  refine ⟨same ▸ foreign.placed bursts, fun rest here => ?_, fun index here => ?_,
    fun threw here => ?_⟩
  · rw [phase] at here
    cases here
    exact ⟨[], rfl, none⟩
  · rw [phase] at here
    cases here
  · rw [phase] at here
    cases here

theorem barrier_of_orderly {request : Request} (orderly : Orderly pool request throws)
    (foreign : Foreign start) :
    Barrier pool request throws start := by
  intro moves last run threw left index bound
  rw [Orderly] at orderly
  cases planned : request.bursts pool with
  | none =>
    have still :=
      run.invariant (fun state : Execution => state.submitted = 0 ∧ state.phase = .left true)
      (fun first move second taken before => ?_)
        (by rw [Execution.begin, planned]; exact ⟨rfl, rfl⟩)
    · rw [still.1] at bound
      exact absurd bound (Nat.not_lt_zero _)
    · by_cases caller : move = .caller
      · subst caller
        simp only [Execution.step, Execution.callerStep, before.2] at taken
        cases taken
      · obtain ⟨phase, submitted, -⟩ := frame taken caller
        rw [phase, submitted]
        exact before
  | some bursts =>
    rw [planned] at orderly
    have phase : (Execution.begin pool request start).phase =
        .submitting bursts := by rw [Execution.begin, planned]
    rcases orderly with ⟨burst, rest, rfl, refused⟩ | ⟨accepted, quiet⟩
    · have none :=
        run.invariant (Refused (burst :: rest))
          (fun _ _ _ taken before => before.step refused taken)
        ⟨rfl, .inl phase⟩
      rw [none.1] at bound
      exact absurd bound (Nat.not_lt_zero _)
    · have submits :=
        run.invariant (Submits pool bursts)
          (fun _ _ _ taken before => before.step accepted quiet taken)
        (foreign.submits rfl phase rfl)
      exact submits.left threw left index bound

end Sufficient

section Necessary

variable {pool : Shape} {throws : Nat → Bool}

/-- The queue of a workgroup that has the tasks from `first` on, whose workgroups are given. -/
def waiting (homes : List Nat) (first workgroup : Nat) : List (Option Job) :=
  ((homes.zipIdx first).filter fun entry => entry.1 == workgroup).map fun entry =>
    some (.own entry.2)

/-- The tasks before `first` have finished, and the others wait. -/
def progress (homes : List Nat) (first : Nat) : WorkerPool Job :=
  ⟨waiting homes first, fun _ => .idle, (List.range first).map .own⟩

theorem waiting_cons (home : Nat) (rest : List Nat) (first workgroup : Nat) :
    waiting (home :: rest) first workgroup =
      if home = workgroup then some (.own first) :: waiting rest (first + 1) workgroup
      else waiting rest (first + 1) workgroup := by
  rw [waiting, zipIdx_cons, filter_cons]
  by_cases here : home = workgroup
  · rw [if_pos (beq_iff_eq.mpr here), if_pos here]
    rfl
  · rw [if_neg (fun same => here (beq_iff_eq.mp same)), if_neg here]
    rfl

theorem waiting_append (done : List Nat) (burst : Burst) :
    waiting (done ++ replicate burst.numTasks burst.workgroup.toNat) 0 =
      update (waiting done 0) burst.workgroup.toNat (waiting done 0 burst.workgroup.toNat ++
        (range burst.numTasks).map fun i => some (.own (done.length + i))) := by
  funext workgroup
  have new : ((replicate burst.numTasks burst.workgroup.toNat).zipIdx done.length).map
      (fun entry => some (Job.own entry.2)) =
      (range burst.numTasks).map fun i => some (.own (done.length + i)) := by
    refine ext_getElem (by simp) fun i _ _ => ?_
    simp
  by_cases here : workgroup = burst.workgroup.toNat
  · subst here
    rw [update_self, ← new, waiting, waiting, zipIdx_append, filter_append, map_append,
      Nat.zero_add]
    congr 2
    refine filter_eq_self.mpr fun entry member => ?_
    exact beq_iff_eq.mpr (eq_of_mem_replicate (fst_mem_of_mem_zipIdx member))
  · rw [update_of_ne here, waiting, waiting, zipIdx_append, filter_append, map_append, Nat.zero_add]
    have none : (((replicate burst.numTasks burst.workgroup.toNat).zipIdx done.length).filter
        fun entry => entry.1 == workgroup) = [] := by
      refine filter_eq_nil_iff.mpr fun entry member same => here ?_
      exact (beq_iff_eq.mp same).symm.trans (eq_of_mem_replicate (fst_mem_of_mem_zipIdx member))
    rw [none, map_nil, append_nil]

theorem run_task (throws : Nat → Bool) {home : Nat} (worked : home ∈ pool.workers) (rest : List Nat)
    (first : Nat) (phase : Phase) (submitted : Nat) :
    ∃ moves, Execution.Reaches pool throws ⟨progress (home :: rest) first, phase, submitted⟩ moves
      ⟨progress rest (first + 1), phase, submitted⟩ := by
  obtain ⟨worker, bound, here⟩ := getElem_of_mem worked
  have member : pool.workers[worker]? = some home := by rw [getElem?_eq_getElem bound, here]
  have front : waiting (home :: rest) first home =
      some (.own first) :: waiting rest (first + 1) home :=
    (waiting_cons home rest first home).trans (if_pos rfl)
  let taken : WorkerPool Job :=
    ⟨update (waiting (home :: rest) first) home (waiting rest (first + 1) home),
    update (fun _ => .idle) worker (.busy (.own first)), (range first).map .own⟩
  have take : (progress (home :: rest) first).step pool.workers (.take worker) = some taken := by
    simp only [WorkerPool.step, member, progress, front, taken]
  have finish : taken.step pool.workers (.finish worker) = some (progress rest (first + 1)) := by
    simp only [WorkerPool.step, member, taken, update_self, update_idem, update_eq_self,
      progress, range_succ, map_append, map_cons, map_nil]
    congr 2
    funext workgroup
    by_cases same : workgroup = home
    · subst same
      rw [update_self]
    · rw [update_of_ne same, waiting_cons, if_neg (Ne.symm same)]
  have first_move : (Execution.mk (progress (home :: rest) first) phase submitted).step pool throws
      (.worker (.take worker)) =
      some ⟨taken, phase, submitted⟩ := by
    simp only [Execution.step, take, map_some]
  have second_move :
      (Execution.mk taken phase submitted).step pool throws (.worker (.finish worker)) =
      some ⟨progress rest (first + 1), phase, submitted⟩ := by
    simp only [Execution.step, finish, map_some]
  exact ⟨_, .step first_move (.step second_move (.done _))⟩

theorem run_tasks (throws : Nat → Bool) (rest : List Nat) (phase : Phase) (submitted : Nat) :
    ∀ (done : List Nat) (first : Nat),
    (∀ home ∈ done, home ∈ pool.workers) →
    ∃ moves, Execution.Reaches pool throws ⟨progress (done ++ rest) first, phase, submitted⟩ moves
      ⟨progress rest (first + done.length), phase, submitted⟩ := by
  intro done
  induction done with
  | nil => exact fun first _ => ⟨[], .done _⟩
  | cons home done ih =>
    intro first worked
    obtain ⟨earlier, one⟩ :=
      run_task throws (worked home mem_cons_self) (done ++ rest) first phase submitted
    obtain ⟨later, more⟩ := ih (first + 1) fun other member =>
      worked other (mem_cons_of_mem _ member)
    refine ⟨earlier ++ later, ?_⟩
    rw [length_cons, ← Nat.add_assoc, Nat.add_right_comm]
    exact one.append more

theorem run_submit (throws : Nat → Bool) (rest : List Burst) :
    ∀ (more done : List Burst), (∀ burst ∈ more, pool.Accepts burst) →
    ∃ moves, Execution.Reaches pool throws
      ⟨progress (homes done) 0, .submitting (more ++ rest), (homes done).length⟩ moves
      ⟨progress (homes (done ++ more)) 0, .submitting rest, (homes (done ++ more)).length⟩ := by
  intro more
  induction more with
  | nil =>
    intro done _
    rw [append_nil]
    exact ⟨[], .done _⟩
  | cons burst more ih =>
    intro done accepted
    obtain ⟨moves, run⟩ := ih (done ++ [burst]) fun other member =>
      accepted other (mem_cons_of_mem _ member)
    rw [append_assoc, singleton_append] at run
    have one : homes [burst] = replicate burst.numTasks burst.workgroup.toNat := by
      rw [homes_cons, homes, flatMap_nil, append_nil]
    refine ⟨.caller :: moves, .step ?_ run⟩
    simp only [Execution.step, Execution.callerStep, cons_append,
      if_pos (accepted burst mem_cons_self),
      homes_append, one, length_append, length_replicate]
    rw [progress, progress, waiting_append]

theorem run_await (pool : Shape) {throws : Nat → Bool} (tasks : WorkerPool Job) (submitted : Nat) :
    ∀ index : Nat,
    index ≤ submitted →
      (∀ earlier < index, throws earlier = false ∧ .own earlier ∈ tasks.finished) →
    ∃ moves, Execution.Reaches pool throws ⟨tasks, .awaiting 0, submitted⟩ moves
      ⟨tasks, .awaiting index, submitted⟩ := by
  intro index
  induction index with
  | zero => exact fun _ _ => ⟨[], .done _⟩
  | succ index ih =>
    intro bound quiet
    obtain ⟨moves, run⟩ := ih (by omega) fun earlier less => quiet earlier (by omega)
    obtain ⟨silent, finished⟩ := quiet index (Nat.lt_succ_self _)
    refine ⟨moves ++ [.caller], run.append (.step ?_ (.done _))⟩
    simp only [Execution.step, Execution.callerStep, if_pos (show index < submitted by omega),
      if_pos finished, silent,
      Bool.false_eq_true, if_false]

theorem burstsFrom_pos (pool : Shape) (workgroups : List Int) {tasksPerWorkgroup : Nat}
    (some_tasks : 0 < tasksPerWorkgroup) :
    ∀ (fuel it numTasks : Nat), ∀ burst ∈ pool.burstsFrom workgroups tasksPerWorkgroup fuel it
      numTasks, 0 < burst.numTasks := by
  intro fuel
  induction fuel with
  | zero => exact fun _ _ _ member => absurd member not_mem_nil
  | succ fuel ih =>
    intro it numTasks burst member
    rw [Shape.burstsFrom] at member
    split at member
    · exact absurd member not_mem_nil
    · rename_i remaining
      rcases mem_cons.mp member with rfl | later
      · exact lt_min (Nat.pos_of_ne_zero remaining) some_tasks
      · exact ih _ _ _ later

theorem bursts_pos {request : Request} {bursts : List Burst}
    (planned : request.bursts pool = some bursts) :
    ∀ burst ∈ bursts, 0 < burst.numTasks := by
  intro burst member
  cases request with
  | single numTasks workgroup =>
    rw [Request.bursts] at planned
    split at planned
    · cases planned
      exact absurd member not_mem_nil
    · cases planned
      rw [mem_singleton.mp member]
      simp only
      omega
  | spread numTasks workgroups tasksPerWorkgroup =>
    rw [Request.bursts] at planned
    split at planned
    · cases planned
      exact absurd member not_mem_nil
    · split at planned
      · cases planned
      · cases planned
        exact burstsFrom_pos pool workgroups (by omega) _ _ _ burst member

/-- A task that throws: the caller leaves as soon as it gets to its future. -/
theorem leaves_unfinished {bursts : List Burst} (accepted : ∀ burst ∈ bursts, pool.Accepts burst)
    {index : Nat}
    (bound : index < (homes bursts).length)
    (worked : ∀ home ∈ (homes bursts).take (index + 1), home ∈ pool.workers)
    (throwing : throws index = true) (quiet : ∀ earlier < index, throws earlier = false) :
    ∃ moves, Execution.Reaches pool throws ⟨progress [] 0, .submitting bursts, 0⟩ moves
      ⟨progress ((homes bursts).drop (index + 1)) (index + 1), .left true,
        (homes bursts).length⟩ := by
  have finished : ∀ earlier < index + 1,
      .own earlier ∈ (progress ((homes bursts).drop (index + 1)) (index + 1)).finished :=
    fun earlier less => mem_map_of_mem (mem_range.mpr less)
  obtain ⟨submitting, submit⟩ := run_submit throws [] bursts [] accepted
  rw [append_nil, nil_append] at submit
  have turn : (Execution.mk (progress (homes bursts) 0) (.submitting []) (homes bursts).length).step
      pool throws .caller =
      some ⟨progress (homes bursts) 0, .awaiting 0, (homes bursts).length⟩ := rfl
  obtain ⟨working, work⟩ :=
    run_tasks throws ((homes bursts).drop (index + 1)) (.awaiting 0) (homes bursts).length
    ((homes bursts).take (index + 1)) 0 worked
  rw [take_append_drop, length_take, Nat.min_eq_left bound, Nat.zero_add] at work
  obtain ⟨awaiting, await⟩ :=
    run_await pool (progress ((homes bursts).drop (index + 1)) (index + 1))
    (homes bursts).length index bound.le fun earlier less =>
      ⟨quiet earlier less, finished earlier (by omega)⟩
  refine ⟨submitting ++ .caller :: (working ++ (awaiting ++ [.caller])),
    submit.append (.step turn (work.append (await.append (.step ?_ (.done _)))))⟩
  simp only [Execution.step, Execution.callerStep, if_pos bound,
    if_pos (finished index (Nat.lt_succ_self _)), throwing, if_true]

theorem foreign_idle : Foreign (progress [] 0) :=
  ⟨fun _ _ member => absurd member not_mem_nil, fun _ _ busy => (nomatch busy), fun _ member =>
    absurd member not_mem_nil⟩

theorem orderly_of_barrier {request : Request}
    (barrier : Barrier pool request throws (progress [] 0)) :
    Orderly pool request throws := by
  rw [Orderly]
  cases planned : request.bursts pool with
  | none => trivial
  | some bursts =>
    have start : Execution.begin pool request (progress [] 0) =
        ⟨progress [] 0, .submitting bursts, 0⟩ := by
      rw [Execution.begin, planned]
    rw [Barrier, start] at barrier
    by_cases accepted : ∀ burst ∈ bursts, pool.Accepts burst
    · refine .inr ⟨accepted, fun index more worked => ?_⟩
      by_contra some_throws
      -- the first task that throws
      have exists_throwing : ∃ other, throws other = true := ⟨index, by simpa using some_throws⟩
      have upTo : Nat.find exists_throwing ≤ index :=
        Nat.find_min' exists_throwing (by simpa using some_throws)
      obtain ⟨moves, run⟩ :=
        leaves_unfinished accepted (show Nat.find exists_throwing < (homes bursts).length by omega)
        (fun home member => worked home ((take_prefix_take_left (by omega)).subset member))
        (Nat.find_spec exists_throwing) fun earlier less =>
          by simpa using Nat.find_min exists_throwing less
      have last := barrier moves _ run true rfl (index + 1) more
      obtain ⟨other, member, same⟩ := mem_map.mp last
      rw [mem_range] at member
      cases same
      omega
    · left
      have found : (bursts.find? fun burst => ¬ pool.Accepts burst).isSome := by
        push Not at accepted
        simpa using accepted
      obtain ⟨burst, found⟩ := isSome_iff_exists.mp found
      obtain ⟨refused, done, rest, whole, before⟩ := find?_eq_some_iff_append.mp found
      rw [decide_eq_true_iff] at refused
      cases done with
      | nil => exact ⟨burst, rest, whole, refused⟩
      | cons first done =>
        -- the caller leaves at once, and nothing has finished
        obtain ⟨moves, run⟩ := run_submit throws (burst :: rest) (first :: done) []
          fun other member => show pool.Accepts other by simpa using before other member
        have leaves :
            Execution.Reaches pool throws ⟨progress [] 0, .submitting bursts, 0⟩
            (moves ++ [.caller])
            ⟨progress (homes (first :: done)) 0, .left true, (homes (first :: done)).length⟩ := by
          rw [whole]
          refine run.append (.step ?_ (.done _))
          simp only [Execution.step, Execution.callerStep, if_neg refused, nil_append]
        have positive := bursts_pos planned first (whole ▸ mem_append_left _ mem_cons_self)
        have some_tasks : 0 < (homes (first :: done)).length := by
          rw [homes_cons, length_append, length_replicate]
          omega
        exact absurd (barrier _ _ leaves true rfl 0 some_tasks) not_mem_nil

end Necessary

/-- `execute_n` is a barrier in every run, from every pool that it finds and beside every other
caller, exactly when it submits nothing, or all its bursts are accepted and no task but the last
throws. Tasks that the caller never gets to, since one before them has no worker, may throw. -/
theorem execute_n_barrier_iff (pool : Shape) (request : Request) (throws : Nat → Bool) :
    (∀ start, Foreign start → Barrier pool request throws start) ↔ Orderly pool request throws :=
  ⟨fun barrier => orderly_of_barrier (barrier (progress [] 0) foreign_idle),
    fun orderly _ foreign => barrier_of_orderly orderly foreign⟩

def oneEach (numWorkgroups : Nat) (some_workgroups : 0 < numWorkgroups) : Shape :=
  ⟨numWorkgroups, List.range numWorkgroups, some_workgroups, fun _ => List.mem_range.mp⟩

/-- The first of two tasks throws, and `execute_n` leaves while the second one waits. With the
workgroups 0 and -1 it leaves with the only task it has submitted still waiting. -/
theorem execute_n_leaves_early :
    (∃ moves last, Execution.Reaches (oneEach 1 (by decide)) (fun index => index == 0)
      (.begin (oneEach 1 (by decide)) (.single 2 0) (progress [] 0)) moves last ∧
      last.phase = .left true ∧ last.submitted = 2 ∧ .own 1 ∉ last.finished) ∧
    (∃ moves last, Execution.Reaches (oneEach 2 (by decide)) (fun _ => false)
      (.begin (oneEach 2 (by decide)) (.spread 2 [0, -1] 1) (progress [] 0)) moves last ∧
      last.phase = .left true ∧ last.submitted = 1 ∧ last.finished = []) := by
  refine ⟨⟨[.caller, .caller, .worker (.take 0), .worker (.finish 0), .caller], _,
    .step rfl (.step rfl (.step rfl (.step rfl (.step rfl (.done _))))), rfl, rfl, by decide⟩, ?_⟩
  exact ⟨[.caller, .caller], _, .step rfl (.step rfl (.done _)), rfl, rfl, rfl⟩

end EmbedCache.ThreadPool
