import EmbedCache.Lib.Runs

/-! Workers in groups, each group with a queue of its own.

A worker takes the front of its group's queue. A task keeps it busy until the task is
finished; an end marker makes it exit. -/

namespace EmbedCache.Lib

open List Function
open Function (update)

variable {τ : Type*}

inductive WorkerState (τ : Type*)
  | idle
  | busy (task : τ)
  | exited
  deriving DecidableEq, Repr

namespace WorkerState

def isExited : WorkerState τ → Bool
  | .exited => true
  | _ => false

def task : WorkerState τ → Multiset τ
  | .busy task => {task}
  | _ => 0

@[simp] theorem isExited_idle : (idle : WorkerState τ).isExited = false := rfl

@[simp] theorem isExited_busy (task : τ) : (busy task).isExited = false := rfl

@[simp] theorem isExited_exited : (exited : WorkerState τ).isExited = true := rfl

@[simp] theorem task_idle : (idle : WorkerState τ).task = 0 := rfl

@[simp] theorem task_busy (task : τ) : (busy task).task = {task} := rfl

@[simp] theorem task_exited : (exited : WorkerState τ).task = 0 := rfl

end WorkerState

/-- The queues of the groups, in which `none` is an end marker. -/
structure WorkerPool (τ : Type*) where
  queues : Nat → List (Option τ)
  workers : Nat → WorkerState τ
  finished : List τ

inductive WorkerMove
  | take (worker : Nat)
  | finish (worker : Nat)
  deriving DecidableEq, Repr

namespace WorkerPool

/-- A move; `groups` tells the group of each worker. -/
def step (groups : List Nat) (pool : WorkerPool τ) : WorkerMove → Option (WorkerPool τ)
  | .take worker =>
    match groups[worker]?, pool.workers worker with
    | some group, .idle =>
      match pool.queues group with
      | [] => none
      | some task :: rest => some { pool with
          queues := update pool.queues group rest
          workers := update pool.workers worker (.busy task) }
      | none :: rest => some { pool with
          queues := update pool.queues group rest
          workers := update pool.workers worker .exited }
    | _, _ => none
  | .finish worker =>
    match groups[worker]?, pool.workers worker with
    | some _, .busy task => some { pool with
        workers := update pool.workers worker .idle
        finished := pool.finished ++ [task] }
    | _, _ => none

variable {groups : List Nat} {pool next : WorkerPool τ} {move : WorkerMove}

inductive Moved (groups : List Nat) (pool : WorkerPool τ) : WorkerMove → WorkerPool τ → Prop
  | took {worker group : Nat} {task : τ} {rest : List (Option τ)}
    (member : groups[worker]? = some group)
      (idle : pool.workers worker = .idle) (front : pool.queues group = some task :: rest) :
      Moved groups pool (.take worker) { pool with
        queues := update pool.queues group rest
        workers := update pool.workers worker (.busy task) }
  | exited {worker group : Nat} {rest : List (Option τ)} (member : groups[worker]? = some group)
      (idle : pool.workers worker = .idle) (front : pool.queues group = none :: rest) :
      Moved groups pool (.take worker) { pool with
        queues := update pool.queues group rest
        workers := update pool.workers worker .exited }
  | finished {worker group : Nat} {task : τ} (member : groups[worker]? = some group)
      (busy : pool.workers worker = .busy task) :
      Moved groups pool (.finish worker) { pool with
        workers := update pool.workers worker .idle
        finished := pool.finished ++ [task] }

theorem moved_of_step (taken : pool.step groups move = some next) :
    Moved groups pool move next := by
  cases move with
  | take worker =>
    simp only [step] at taken
    split at taken
    · rename_i group member idle
      split at taken
      · cases taken
      · rename_i task rest front
        cases taken
        exact .took member idle front
      · rename_i rest front
        cases taken
        exact .exited member idle front
    · cases taken
  | finish worker =>
    simp only [step] at taken
    split at taken
    · rename_i group task member busy
      cases taken
      exact .finished member busy
    · cases taken

/-- A worker that is not in its last state can move, unless it is idle before an empty queue. -/
theorem stopped_cases (stopped : ∀ move, pool.step groups move = none) {worker group : Nat}
    (member : groups[worker]? = some group) :
    pool.workers worker = .exited ∨ pool.workers worker = .idle ∧ pool.queues group = [] := by
  cases state : pool.workers worker with
  | exited => exact .inl rfl
  | busy task =>
    have free := stopped (.finish worker)
    simp [step, member, state] at free
  | idle =>
    refine .inr ⟨rfl, ?_⟩
    have free := stopped (.take worker)
    simp only [step, member, state] at free
    split at free
    · assumption
    · cases free
    · cases free

/-! ### What moves keep -/

theorem sum_update {M σ : Type*} [AddCommMonoid M] (g : Nat → σ → M) (f : Nat → σ) {i n : Nat}
    (inside : i < n) (x : σ) :
    ∑ j ∈ Finset.range n, g j (update f i x j) + g i (f i) = ∑ j ∈ Finset.range n,
      g j (f j) + g i x := by
  have member := Finset.mem_range.mpr inside
  rw [← Finset.add_sum_erase _ _ member,
    ← Finset.add_sum_erase (Finset.range n) (fun j => g j (f j)) member,
    update_self]
  have others : ∑ j ∈ (Finset.range n).erase i, g j (update f i x j) =
      ∑ j ∈ (Finset.range n).erase i, g j (f j) := by
    apply Finset.sum_congr rfl
    intro j other
    rw [update_of_ne (Finset.ne_of_mem_erase other)]
  rw [others]
  abel

variable (groups pool) in
def exits (group : Nat) : Nat :=
  ∑ worker ∈ Finset.range groups.length,
    if groups[worker]? = some group ∧ (pool.workers worker).isExited = true then 1 else 0

variable (groups pool) in
/-- All tasks: those finished, those waiting in the first `m` queues, and those that workers are
busy with. -/
def tasks (m : Nat) : Multiset τ :=
  pool.finished + ∑ group ∈ Finset.range m,
    (((pool.queues group).filterMap id : List τ) : Multiset τ) +
    ∑ worker ∈ Finset.range groups.length, (pool.workers worker).task

variable (groups pool) in
def work (m : Nat) : Nat :=
  ∑ group ∈ Finset.range m, 2 * (pool.queues group).length +
    ∑ worker ∈ Finset.range groups.length, (pool.workers worker).task.card

theorem getElem?_lt {worker group : Nat} (member : groups[worker]? = some group) :
    worker < groups.length :=
  (List.getElem?_eq_some_iff.mp member).1

theorem exits_add_markers (taken : pool.step groups move = some next) (group : Nat) :
    next.exits groups group + (next.queues group).countP Option.isNone =
      pool.exits groups group + (pool.queues group).countP Option.isNone := by
  let counted (worker : Nat) (state : WorkerState τ) : Nat :=
    if groups[worker]? = some group ∧ state.isExited = true then 1 else 0
  cases moved_of_step taken with
  | @took worker own task rest member idle front =>
    have workers := sum_update counted pool.workers (getElem?_lt member) (.busy task)
    simp only [counted, idle, WorkerState.isExited_idle, WorkerState.isExited_busy,
      Bool.false_eq_true, and_false,
      if_false, Nat.add_zero] at workers
    by_cases here : group = own
    · subst here
      simp only [exits, update_self, front, countP_cons, Option.isNone_some,
        Bool.false_eq_true, if_false,
        Nat.add_zero, workers]
    · simp only [exits, update_of_ne here, workers]
  | @exited worker own rest member idle front =>
    have workers := sum_update counted pool.workers (getElem?_lt member) .exited
    simp only [counted, idle, WorkerState.isExited_idle, WorkerState.isExited_exited,
      Bool.false_eq_true, and_false,
      if_false, Nat.add_zero, and_true, member, Option.some.injEq] at workers
    by_cases here : group = own
    · subst here
      simp only [exits, update_self, front, countP_cons, Option.isNone_none, if_true, workers]
      omega
    · rw [if_neg fun same => here same.symm] at workers
      simp only [exits, update_of_ne here, workers, Nat.add_zero]
  | @finished worker own task member busy =>
    have workers := sum_update counted pool.workers (getElem?_lt member) .idle
    simp only [counted, busy, WorkerState.isExited_idle, WorkerState.isExited_busy,
      Bool.false_eq_true, and_false,
      if_false, Nat.add_zero] at workers
    simp only [exits, workers]

theorem tasks_step {m : Nat} (known : ∀ group ∈ groups, group < m)
    (taken : pool.step groups move = some next) :
    next.tasks groups m = pool.tasks groups m := by
  let waiting (_ : Nat) (queue : List (Option τ)) : Multiset τ :=
    ((queue.filterMap id : List τ) : Multiset τ)
  let kept (_ : Nat) (state : WorkerState τ) : Multiset τ := state.task
  have inside : ∀ {worker group : Nat}, groups[worker]? = some group → group < m := fun member =>
    known _ (mem_of_getElem? member)
  cases moved_of_step taken with
  | @took worker group task rest member idle front =>
    have queues := sum_update waiting pool.queues (inside member) rest
    have workers := sum_update kept pool.workers (getElem?_lt member) (.busy task)
    have cons : waiting group (some task :: rest) = {task} + waiting group rest := by
      simp [waiting]
    rw [front, cons, ← add_assoc] at queues
    have moved := add_right_cancel queues
    simp only [kept, idle, WorkerState.task_idle, WorkerState.task_busy, add_zero] at workers
    simp only [tasks, workers, ← moved, waiting]
    abel
  | @exited worker group rest member idle front =>
    have queues := sum_update waiting pool.queues (inside member) rest
    have workers := sum_update kept pool.workers (getElem?_lt member) .exited
    have cons : waiting group (none :: rest) = waiting group rest := by
      simp [waiting]
    rw [front, cons] at queues
    have same := add_right_cancel queues
    simp only [kept, idle, WorkerState.task_idle, WorkerState.task_exited, add_zero] at workers
    simp only [tasks, workers]
    rw [show ∑ group ∈ Finset.range m, _ = _ from same]
  | @finished worker group task member busy =>
    have workers := sum_update kept pool.workers (getElem?_lt member) .idle
    simp only [kept, busy, WorkerState.task_idle, WorkerState.task_busy, add_zero] at workers
    simp only [tasks, ← workers, ← Multiset.coe_add, Multiset.coe_singleton]
    abel

theorem work_step {m : Nat} (known : ∀ group ∈ groups, group < m)
    (taken : pool.step groups move = some next) :
    next.work groups m < pool.work groups m := by
  let waiting (_ : Nat) (queue : List (Option τ)) : Nat := 2 * queue.length
  let kept (_ : Nat) (state : WorkerState τ) : Nat := state.task.card
  have inside : ∀ {worker group : Nat}, groups[worker]? = some group → group < m := fun member =>
    known _ (mem_of_getElem? member)
  cases moved_of_step taken with
  | @took worker group task rest member idle front =>
    have queues := sum_update waiting pool.queues (inside member) rest
    have workers := sum_update kept pool.workers (getElem?_lt member) (.busy task)
    simp only [waiting, kept, front, idle, length_cons, WorkerState.task_idle,
      WorkerState.task_busy,
      Multiset.card_singleton, Multiset.card_zero] at queues workers
    simp only [work]
    omega
  | @exited worker group rest member idle front =>
    have queues := sum_update waiting pool.queues (inside member) rest
    have workers := sum_update kept pool.workers (getElem?_lt member) .exited
    simp only [waiting, kept, front, idle, length_cons, WorkerState.task_idle,
      WorkerState.task_exited,
      Multiset.card_zero] at queues workers
    simp only [work]
    omega
  | @finished worker group task member busy =>
    have workers := sum_update kept pool.workers (getElem?_lt member) .idle
    simp only [kept, busy, WorkerState.task_idle, WorkerState.task_busy, Multiset.card_singleton,
      Multiset.card_zero] at workers
    simp only [work]
    omega

theorem sum_members (groups : List Nat) (group : Nat) :
    ∑ worker ∈ Finset.range groups.length, (if groups[worker]? = some group then 1 else 0) =
      groups.count group := by
  induction groups using List.reverseRecOn with
  | nil => rfl
  | append_singleton groups last ih =>
    have front : ∀ worker ∈ Finset.range groups.length,
        (if (groups ++ [last])[worker]? = some group then 1 else 0) =
        if groups[worker]? = some group then 1 else 0 := by
      intro worker inside
      rw [List.getElem?_append_left (Finset.mem_range.mp inside)]
    rw [length_append, length_singleton, Finset.sum_range_succ, Finset.sum_congr rfl front, ih,
      List.getElem?_concat_length, count_append, count_singleton]
    by_cases here : last = group
    · simp [here]
    · simp [here]

theorem exited_of_exits (full : pool.exits groups group = groups.count group) {worker : Nat}
    (member : groups[worker]? = some group) : pool.workers worker = .exited := by
  by_contra alive
  have awake : (pool.workers worker).isExited = false := by
    cases state : pool.workers worker with
    | exited => exact absurd state alive
    | idle => rfl
    | busy task => rfl
  have less : pool.exits groups group < groups.count group := by
    rw [← sum_members, exits]
    apply Finset.sum_lt_sum
    · intro other _
      split
      · rename_i both
        rw [if_pos both.1]
      · exact Nat.zero_le _
    · refine ⟨worker, Finset.mem_range.mpr (getElem?_lt member), ?_⟩
      simp [member, awake]
  omega

/-- Markers stand behind tasks, and none has been taken while tasks wait. -/
structure InOrder (groups : List Nat) (pool : WorkerPool τ) (group : Nat) : Prop where
  sorted : ∃ (waiting : List τ) (markers : Nat),
    pool.queues group = waiting.map some ++ List.replicate markers none
  first : 0 < pool.exits groups group → (pool.queues group).filterMap id = []

theorem InOrder.step (ordered : InOrder groups pool group)
    (taken : pool.step groups move = some next) :
    InOrder groups next group := by
  have balance := exits_add_markers taken group
  obtain ⟨waiting, markers, queue⟩ := ordered.sorted
  cases moved_of_step taken with
  | @took worker own task rest member idle front =>
    by_cases here : group = own
    · subst here
      rw [front] at queue
      cases waiting with
      | nil =>
        cases markers with
        | zero => cases queue
        | succ markers => exact absurd (List.cons.inj queue).1 (Option.some_ne_none task)
      | cons first waiting =>
        have tail := (List.cons.inj queue).2
        refine ⟨⟨waiting, markers, ?_⟩, fun some_exits => ?_⟩
        · simp only [update_self]
          exact tail
        · -- no marker has been taken before the task in front
          have before : pool.exits groups group = 0 := by
            by_contra some_before
            have nothing := ordered.first (Nat.pos_of_ne_zero some_before)
            rw [front] at nothing
            simp at nothing
          simp only [update_self, front, countP_cons, Option.isNone_some, Bool.false_eq_true,
            if_false] at balance
          omega
    · simp only [update_of_ne here] at balance
      refine ⟨⟨waiting, markers, ?_⟩, fun some_exits => ?_⟩
      · simp only [update_of_ne here]
        exact queue
      · simp only [update_of_ne here]
        exact ordered.first (by omega)
  | @exited worker own rest member idle front =>
    by_cases here : group = own
    · subst here
      rw [front] at queue
      cases waiting with
      | cons first waiting => exact absurd (List.cons.inj queue).1.symm (Option.some_ne_none first)
      | nil =>
        cases markers with
        | zero => cases queue
        | succ markers =>
          have tail : rest = List.replicate markers none := (List.cons.inj queue).2
          refine ⟨⟨[], markers, ?_⟩, fun _ => ?_⟩
          · simp only [update_self]
            exact tail
          · simp only [update_self, tail]
            exact filterMap_replicate_of_none rfl
    · simp only [update_of_ne here] at balance
      refine ⟨⟨waiting, markers, ?_⟩, fun some_exits => ?_⟩
      · simp only [update_of_ne here]
        exact queue
      · simp only [update_of_ne here]
        exact ordered.first (by omega)
  | finished member busy =>
    have same := Nat.add_right_cancel balance
    exact ⟨⟨waiting, markers, queue⟩, fun some_exits => ordered.first (same ▸ some_exits)⟩

theorem exited_step {worker : Nat} (exited : pool.workers worker = .exited)
    (taken : pool.step groups move = some next) :
    next.workers worker = .exited := by
  have other : ∀ {moving : Nat} {state : WorkerState τ}, pool.workers moving ≠ .exited →
      update pool.workers moving state worker = .exited := by
    intro moving state alive
    rw [update_of_ne, exited]
    rintro rfl
    exact alive exited
  cases moved_of_step taken with
  | took _ idle _ => exact other (by rw [idle]; simp)
  | exited _ idle _ => exact other (by rw [idle]; simp)
  | finished _ busy => exact other (by rw [busy]; simp)

/-- Tasks wait only in the groups that `fits` gives them, and those that workers got to are
`served`. -/
structure Placed (fits : τ → Nat → Prop) (served : τ → Prop) (pool : WorkerPool τ) : Prop where
  queues : ∀ group task, some task ∈ pool.queues group → fits task group
  workers : ∀ worker task, pool.workers worker = .busy task → served task
  finished : ∀ task ∈ pool.finished, served task

theorem Placed.step {fits : τ → Nat → Prop} {served : τ → Prop} (placed : Placed fits served pool)
    (serves : ∀ task, ∀ group ∈ groups, fits task group → served task)
    (taken : pool.step groups move = some next) :
    Placed fits served next := by
  -- a queue without its front holds nothing new
  have shorter {group : Nat} {front : Option τ} {rest : List (Option τ)}
      (queue : pool.queues group = front :: rest)
      (other : Nat) (task : τ) (member : some task ∈ update pool.queues group rest other) :
        fits task other := by
    by_cases same : other = group
    · subst same
      rw [update_self] at member
      exact placed.queues other task (queue ▸ mem_cons_of_mem _ member)
    · rw [update_of_ne same] at member
      exact placed.queues other task member
  cases moved_of_step taken with
  | @took worker group task rest member idle front =>
    refine ⟨shorter front, fun other held busy => ?_, placed.finished⟩
    by_cases same : other = worker
    · subst same
      simp only [update_self, WorkerState.busy.injEq] at busy
      subst busy
      exact serves task group (mem_of_getElem? member)
        (placed.queues group task (front ▸ mem_cons_self))
    · simp only [update_of_ne same] at busy
      exact placed.workers other held busy
  | @exited worker group rest member idle front =>
    refine ⟨shorter front, fun other held busy => ?_, placed.finished⟩
    by_cases same : other = worker
    · subst same
      simp only [update_self, reduceCtorEq] at busy
    · simp only [update_of_ne same] at busy
      exact placed.workers other held busy
  | @finished worker group task member busy =>
    refine ⟨placed.queues, fun other held here => ?_, fun other done => ?_⟩
    · by_cases same : other = worker
      · subst same
        simp only [update_self, reduceCtorEq] at here
      · simp only [update_of_ne same] at here
        exact placed.workers other held here
    · rcases mem_append.mp done with earlier | now
      · exact placed.finished other earlier
      · rw [mem_singleton.mp now]
        exact placed.workers worker task busy

end WorkerPool

end EmbedCache.Lib
