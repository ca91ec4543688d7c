import EmbedCache.StlFindTasks

/-! Every step of a task of `STLContainerTable::find_` keeps what mask, values, sizes and counts say
about the positions handled so far. -/

namespace EmbedCache.STLContainerTable

open Lib HostTable Bitmask Function Finset Option TaskGrid

variable {Key : Type*} [DecidableEq Key] {b : Nat}

def Phase.isDone : Phase b → Bool
  | .done => true
  | _ => false

namespace FindCall

variable (call : FindCall Key) (start : FindState Key b)

/-- A copy that was put off belongs to a position the task has handled. -/
structure Pending (tasks : Nat → TaskState b) (task : Nat) (slot : Slot) (q : Nat) : Prop where
  withValues : call.request.withValues = true
  own : call.owner b q = task
  handled : call.Handled start tasks q
  stored : (start.parts (call.grid.part task)).slotMap.lookup (call.request.keys q) = some slot

/-- A word was loaded once for each part that has come to it, and not for the others. -/
structure Visits (tasks : Nat → TaskState b) (visits : Nat → Nat → Nat) : Prop where
  one : ∀ p < call.grid.parts, ∀ w < call.grid.words,
    (tasks (call.grid.taskOf p w)).phase.Loaded (call.grid.idxOf p w) → visits p w = 1
  zero : ∀ p < call.grid.parts, ∀ w < call.grid.words,
    ¬ (tasks (call.grid.taskOf p w)).phase.Loaded (call.grid.idxOf p w) → visits p w = 0

/-- What holds at every moment of a call. -/
structure Inv (state : FindState Key b) : Prop where
  parts : ∀ p, Partition.SameRows call.config (start.parts p) (state.parts p)
  mask : ∀ w < call.grid.words, ∀ j < b, (state.hitMask w).getLsbD j = true ↔
    (start.hitMask w).getLsbD j = true ∨ call.Joined start state.tasks (w * b + j)
  maskRest : ∀ w, call.grid.words ≤ w → state.hitMask w = start.hitMask w
  rows : Rows call start (call.Copied start state.tasks) state.values
  sizes : Sizes call start (call.Handled start state.tasks) state.valueSizes
  pending : ∀ task slot q, (state.tasks task).prev = some (slot, q) →
    call.Pending start state.tasks task slot q
  working : ∀ task < call.grid.numTasks, call.Working start state.tasks task
  total : state.totalNumHits = ∑ task ∈ Finset.range call.grid.numTasks,
    if (state.tasks task).phase.isDone then call.hitsBefore start task (call.grid.size task) else 0
  visits : call.Visits state.tasks state.visits

variable {call start}

theorem Pending.congr {tasks later : Nat → TaskState b} {task : Nat} {slot : Slot} {q : Nat}
    (pending : call.Pending start tasks task slot q)
    (handled : ∀ q, call.Handled start tasks q → call.Handled start later q) :
      call.Pending start later task slot q :=
  ⟨pending.withValues, pending.own, handled q pending.handled, pending.stored⟩

variable (proper : call.Proper b start.parts) {state : FindState Key b} (inv : call.Inv start state)
  {task : Nat}
  (inside : task < call.grid.numTasks)

theorem inv_fresh (fresh : start.Fresh) : call.Inv start start := by
  have phase : ∀ task, (start.tasks task).phase = .word 0 := fun task => by rw [fresh.tasks]
  have unhandled : ∀ q, ¬ call.Handled start start.tasks q := by
    rintro q ⟨-, passed⟩
    rw [phase] at passed
    exact Nat.not_lt_zero _ passed
  have unjoined : ∀ q, ¬ call.Joined start start.tasks q := by
    rintro q ⟨-, joined⟩
    rw [phase] at joined
    exact Nat.not_lt_zero _ joined
  exact {
    parts := fun p => Partition.SameRows.refl _
    mask := fun w _ j _ => (or_iff_left (unjoined _)).symm
    maskRest := fun _ _ => rfl
    rows := ⟨fun q copied => absurd copied.1 (unhandled q), fun _ _ => rfl⟩
    sizes := ⟨fun q handled => absurd handled (unhandled q), fun _ _ => rfl⟩
    pending := by
      intro task slot q prev
      rw [fresh.tasks] at prev
      exact absurd prev (some_ne_none _).symm
    working := by
      intro task _
      rw [Working, phase, fresh.tasks]
      exact ⟨Nat.zero_le _, rfl⟩
    total := by
      rw [fresh.total]
      symm
      apply sum_eq_zero
      intro task _
      rw [phase]
      rfl
    visits := by
      constructor
      · intro p _ w _ loaded
        rw [phase] at loaded
        exact absurd loaded (Nat.not_lt_zero _)
      · intro p _ w _ _
        rw [fresh.visits] }

variable {new : TaskState b}

theorem Inv.others (inv : call.Inv start state)
    (joins : ∀ q, call.Joined start state.tasks q →
      call.Joined start (update state.tasks task new) q)
    (here : call.Working start (update state.tasks task new) task) (other : Nat)
    (otherInside : other < call.grid.numTasks) :
      call.Working start (update state.tasks task new) other := by
  by_cases same : other = task
  · rw [same]
    exact here
  · exact (inv.working other otherInside).mono (update_of_ne same _ _) joins

variable {tasks : Nat → TaskState b}

theorem prev_congr (same : new.prev = (tasks task).prev) (other : Nat) :
    (update tasks task new other).prev = (tasks other).prev := by
  by_cases here : other = task
  · rw [here, update_self, same]
  · rw [update_of_ne here]

theorem total_congr
    (same : new.phase.isDone = (tasks task).phase.isDone) :
    (∑ other ∈ Finset.range call.grid.numTasks,
        if (update tasks task new other).phase.isDone then
          call.hitsBefore start other (call.grid.size other)
          else 0) =
      ∑ other ∈ Finset.range call.grid.numTasks,
        if (tasks other).phase.isDone then call.hitsBefore start other (call.grid.size other)
        else 0 := by
  apply sum_congr rfl
  intro other _
  by_cases here : other = task
  · rw [here, update_self, same]
  · rw [update_of_ne here]

omit [DecidableEq Key] in
theorem Visits.congr {visits : Nat → Nat → Nat} (counted : call.Visits tasks visits)
    (same : ∀ i < call.grid.size task, new.phase.Loaded i ↔ (tasks task).phase.Loaded i) :
    call.Visits (update tasks task new) visits := by
  have turns : ∀ p w, (update tasks task new (call.grid.taskOf p w)).phase.Loaded
      (call.grid.idxOf p w) ↔
      (tasks (call.grid.taskOf p w)).phase.Loaded (call.grid.idxOf p w) := by
    intro p w
    by_cases own : call.grid.taskOf p w = task
    · have below : call.grid.idxOf p w < call.grid.size task := own ▸ idxOf_lt
      rw [own, update_self]
      exact same _ below
    · rw [update_of_ne own]
  constructor
  · intro p partInside w wordInside seen
    exact counted.one p partInside w wordInside ((turns p w).mp seen)
  · intro p partInside w wordInside unseen
    exact counted.zero p partInside w wordInside (mt (turns p w).mpr unseen)

/-- A step of a task that handles no position and delivers nothing: what is left to show is its
effect on the mask and the loads. -/
theorem Inv.moved (inv : call.Inv start state) {hitMask : Nat → BitVec b} {visits : Nat → Nat → Nat}
    (handled : ∀ q, call.Handled start (update state.tasks task new) q ↔
      call.Handled start state.tasks q)
    (joins : ∀ q, call.Joined start state.tasks q →
      call.Joined start (update state.tasks task new) q)
    (same : new.prev = (state.tasks task).prev)
    (unfinished : new.phase.isDone = (state.tasks task).phase.isDone)
    (here : call.Working start (update state.tasks task new) task)
    (mask : ∀ w < call.grid.words, ∀ j < b, (hitMask w).getLsbD j = true ↔
      (start.hitMask w).getLsbD j = true ∨
        call.Joined start (update state.tasks task new) (w * b + j))
    (maskRest : ∀ w, call.grid.words ≤ w → hitMask w = start.hitMask w)
    (counted : call.Visits (update state.tasks task new) visits) :
    call.Inv start { state with
      tasks := update state.tasks task new, hitMask := hitMask, visits := visits } := by
  have prev : ∀ other, (update state.tasks task new other).prev = (state.tasks other).prev :=
    prev_congr same
  exact {
    parts := inv.parts
    mask := mask
    maskRest := maskRest
    rows := inv.rows.congr fun q => by rw [Copied, Copied, handled, prev]
    sizes := inv.sizes.congr handled
    pending := fun other slot q off =>
      (inv.pending other slot q ((prev other).symm.trans off)).congr fun q => (handled q).mpr
    working := inv.others joins here
    total := inv.total.trans (total_congr unfinished).symm
    visits := counted }

variable {hmIdx : Nat}

variable (proper : call.Proper b start.parts) (inv : call.Inv start state)

include proper inv in
theorem Inv.load_todo
    (phase : (state.tasks task).phase = .word hmIdx) {q : Nat} (new : call.New start q)
    (own : call.owner b q = task)
    (turn : call.turn b q = hmIdx) :
    (state.hitMask (q / b)).getLsbD (q % b) = false ∧
      (clip (invert (state.hitMask (q / b))) (call.request.n - q / b * b)).getLsbD (q % b) =
        true := by
  have rest := Nat.mod_lt q proper.wide
  have sum : q / b * b + q % b = q := by
    rw [Nat.mul_comm]
    exact Nat.div_add_mod q b
  have word : q / b < call.grid.words := proper.words ▸ word_lt proper.wide new.1
  have unset : (state.hitMask (q / b)).getLsbD (q % b) = false := by
    rw [Bool.eq_false_iff]
    intro bit
    rcases (inv.mask (q / b) word (q % b) rest).mp bit with initial | joined
    · rw [new.2.1] at initial
      exact Bool.noConfusion initial
    · rw [sum, Joined, own, phase, turn] at joined
      exact Nat.lt_irrefl _ joined.2
  refine ⟨unset, ?_⟩
  have listed := new.1
  rw [getLsbD_clip _ _ rest, getLsbD_invert _ rest, unset]
  simp only [Bool.not_false, Bool.true_and, decide_eq_true_eq]
  omega

omit [DecidableEq Key] in
theorem load_visits (task hmIdx : Nat) (state : FindState Key b) (p w : Nat) :
    (call.load task hmIdx state).visits p w =
      state.visits p w +
        if p = call.grid.part task ∧ w = call.grid.word task hmIdx then 1 else 0 := by
  change update state.visits (call.grid.part task) _ p w = _
  by_cases samePart : p = call.grid.part task
  · rw [samePart, update_self]
    by_cases sameWord : w = call.grid.word task hmIdx
    · rw [sameWord, update_self, if_pos ⟨rfl, rfl⟩]
    · rw [update_of_ne sameWord, if_neg fun both => sameWord both.2, Nat.add_zero]
  · rw [update_of_ne samePart, if_neg fun both => samePart both.1, Nat.add_zero]

include inv in
/-- The turn of the word is the only one that is new among the loaded words. -/
theorem Inv.load_counted (inside : task < call.grid.numTasks)
    (phase : (state.tasks task).phase = .word hmIdx)
    (below : hmIdx < call.grid.size task) {it mask : BitVec b}
    (scans : new.phase = .bits hmIdx it mask) :
    call.Visits (update state.tasks task new) (call.load task hmIdx state).visits := by
  have turns : ∀ {p w}, p < call.grid.parts → w < call.grid.words →
      ((update state.tasks task new (call.grid.taskOf p w)).phase.Loaded (call.grid.idxOf p w) ↔
        (state.tasks (call.grid.taskOf p w)).phase.Loaded (call.grid.idxOf p w) ∨
          (p = call.grid.part task ∧ w = call.grid.word task hmIdx)) := by
    intro p w partInside wordInside
    rw [← turn_iff inside below partInside wordInside]
    by_cases own : call.grid.taskOf p w = task
    · rw [own, update_self, phase, scans]
      change _ ≤ hmIdx ↔ _ < hmIdx ∨ _
      omega
    · rw [update_of_ne own]
      exact (or_iff_left fun both => own both.1).symm
  have unloaded : ∀ {p w}, p = call.grid.part task ∧ w = call.grid.word task hmIdx →
      ¬ (state.tasks (call.grid.taskOf p w)).phase.Loaded (call.grid.idxOf p w) := by
    rintro p w ⟨rfl, rfl⟩
    rw [taskOf_word inside below, idxOf_word inside below, phase]
    exact lt_irrefl hmIdx
  constructor
  · intro p partInside w wordInside seen
    rw [load_visits]
    rcases (turns partInside wordInside).mp seen with earlier | turn
    · rw [if_neg fun turn => unloaded turn earlier]
      exact inv.visits.one p partInside w wordInside earlier
    · rw [if_pos turn, inv.visits.zero p partInside w wordInside (unloaded turn)]
  · intro p partInside w wordInside unseen
    obtain ⟨later, other⟩ := not_or.mp (mt (turns partInside wordInside).mpr unseen)
    rw [load_visits, if_neg other]
    exact inv.visits.zero p partInside w wordInside later

include proper inv in
theorem Inv.load (inside : task < call.grid.numTasks)
    (phase : (state.tasks task).phase = .word hmIdx) (more : hmIdx ≠ call.grid.size task) :
    call.Inv start (call.load task hmIdx state) := by
  have now := inv.working task inside
  rw [Working, phase] at now
  have below : hmIdx < call.grid.size task := lt_of_le_of_ne now.1 more
  have word : call.grid.word task hmIdx < call.grid.words := word_lt task hmIdx
  have part : call.grid.part task < call.grid.parts := part_lt inside
  -- the new positions of the word are all still to be worked off
  have todo : ∀ q, call.New start q → call.owner b q = task → call.turn b q = hmIdx →
      (state.hitMask (call.grid.word task hmIdx)).getLsbD (q % b) = false ∧
      (clip (invert (state.hitMask (call.grid.word task hmIdx)))
        (call.request.n - call.grid.word task hmIdx * b)).getLsbD (q % b) = true := by
    intro q new own turn
    have place := ((owner_turn_iff proper inside below new.1).mp ⟨own, turn⟩).2
    rw [← place]
    exact inv.load_todo proper phase new own turn
  let loaded := state.hitMask (call.grid.word task hmIdx)
  let it := clip (invert loaded) (call.request.n - call.grid.word task hmIdx * b)
  let new : TaskState b :=
    { state.tasks task with
      numHits := (state.tasks task).numHits - count loaded, phase := .bits hmIdx it loaded }
  have handled : ∀ q, call.Handled start (update state.tasks task new) q ↔
      call.Handled start state.tasks q := by
    apply handled_congr
    intro q unseen own
    rw [phase]
    refine or_iff_left ?_
    rintro ⟨turn, unset⟩
    rw [(todo q unseen own turn).2] at unset
    exact Bool.noConfusion unset
  have joined : ∀ q, call.Joined start (update state.tasks task new) q ↔
      call.Joined start state.tasks q := by
    apply joined_congr
    intro q unseen own
    rw [phase]
    rfl
  have here : call.Working start (update state.tasks task new) task := by
    rw [Working, update_self]
    refine ⟨loaded, below, ?_, ?_, ?_, ?_, ?_⟩
    · intro j inner bit
      exact (inv.mask _ word j inner).mpr (.inl bit)
    · intro j inner bit
      exact ((inv.mask _ word j inner).mp bit).imp_right (joined _).mpr
    · intro j inner bit
      rw [getLsbD_clip _ _ inner, getLsbD_invert _ inner] at bit
      simp only [Bool.and_eq_true, Bool.not_eq_true', decide_eq_true_eq] at bit
      exact ⟨by omega, bit.1⟩
    · intro j inner
      refine (or_iff_left ?_).symm
      rintro ⟨member, unset⟩
      obtain ⟨unseen, own⟩ := (mem_newSet proper inside below).mp member
      obtain ⟨-, rest⟩ := position_div proper (w := call.grid.word task hmIdx) inner
      have turns := (owner_turn_iff proper inside below unseen.1).mpr own
      have still := (todo _ unseen turns.1 turns.2).2
      rw [rest, unset] at still
      exact Bool.noConfusion still
    · rw [update_self, ← now.2]
  apply inv.moved handled (fun q => (joined q).mpr) rfl (by rw [phase]; rfl) here
  · intro w inner j low
    exact (inv.mask w inner j low).trans (or_congr_right (joined _).symm)
  · exact inv.maskRest
  · exact inv.load_counted inside phase below rfl

theorem Scanning.fresh (proper : call.Proper b start.parts) (inside : task < call.grid.numTasks)
    {it mask loaded seen found : BitVec b} (phase : (tasks task).phase = .bits hmIdx seen found)
    (scanning : call.Scanning start tasks task hmIdx it mask loaded) {j : Nat} (inner : j < b)
    (member : call.grid.word task hmIdx * b + j ∈ call.newSet start task hmIdx) :
      loaded.getLsbD j = false := by
  obtain ⟨unseen, own⟩ := (mem_newSet proper inside scanning.below).mp member
  obtain ⟨word, rest⟩ := position_div proper (w := call.grid.word task hmIdx) inner
  obtain ⟨owner, turn⟩ := (owner_turn_iff proper inside scanning.below unseen.1).mpr own
  rw [Bool.eq_false_iff]
  intro bit
  rcases scanning.known j inner bit with initial | joined
  · have unset := unseen.2.1
    rw [word, rest, initial] at unset
    exact Bool.noConfusion unset
  · have early := joined.2
    rw [owner, phase, turn] at early
    exact lt_irrefl hmIdx early

include proper inv in
theorem Inv.joinWord (inside : task < call.grid.numTasks)
    {it mask : BitVec b}
    (phase : (state.tasks task).phase = .bits hmIdx it mask) (last : hasNext it = false) :
    call.Inv start (call.joinWord task hmIdx mask state) := by
  have now := inv.working task inside
  rw [Working, phase] at now
  obtain ⟨loaded, scanning⟩ := now
  have below := scanning.below
  have unset := getLsbD_of_not_hasNext last
  have word : call.grid.word task hmIdx < call.grid.words := word_lt task hmIdx
  let new : TaskState b :=
    { state.tasks task with
      numHits := (state.tasks task).numHits + count mask, phase := .word (hmIdx + 1) }
  have handled : ∀ q, call.Handled start (update state.tasks task new) q ↔
      call.Handled start state.tasks q := by
    apply handled_congr
    intro q _ own
    rw [phase]
    change _ < hmIdx + 1 ↔ _ < hmIdx ∨ (_ = hmIdx ∧ _)
    simp only [unset, and_true]
    omega
  -- the new positions of the word are joined, and no others
  have joined : ∀ q, call.Joined start (update state.tasks task new) q ↔
      call.Joined start state.tasks q ∨ q ∈ call.newSet start task hmIdx := by
    intro q
    rw [newSet, mem_filter, mem_range, Joined, Joined]
    constructor
    · rintro ⟨unseen, done⟩
      by_cases own : call.owner b q = task
      · rw [own, update_self] at done
        rcases Nat.lt_succ_iff_lt_or_eq.mp done with early | turn
        · left
          rw [own, phase]
          exact ⟨unseen, early⟩
        · exact .inr ⟨unseen.1, unseen, own, turn⟩
      · rw [update_of_ne own] at done
        exact .inl ⟨unseen, done⟩
    · rintro (⟨unseen, done⟩ | ⟨-, unseen, own, turn⟩)
      · refine ⟨unseen, ?_⟩
        by_cases own : call.owner b q = task
        · rw [own, phase] at done
          rw [own, update_self]
          exact Nat.lt_succ_of_lt done
        · rw [update_of_ne own]
          exact done
      · refine ⟨unseen, ?_⟩
        rw [own, update_self, turn]
        exact Nat.lt_succ_self hmIdx
  have here : call.Working start (update state.tasks task new) task := by
    rw [Working, update_self]
    have counted :=
      scanning.count proper inside (fun j inner => scanning.fresh proper inside phase inner) last
    have hits := scanning.hits
    refine ⟨below, ?_⟩
    change (state.tasks task).numHits + (count mask : Int) = _
    rw [hitsBefore, sum_range_succ, ← hitsBefore, hits, counted, Nat.cast_add]
    omega
  apply inv.moved handled (fun q early => (joined q).mpr (.inl early)) rfl (by rw [phase]; rfl) here
  · intro w inner j low
    have bit := inv.mask w inner j low
    rw [joined]
    by_cases same : w = call.grid.word task hmIdx
    · subst same
      rw [update_self, getLsbD_join, Bool.or_eq_true, bit, scanning.marked j low, unset]
      have known := scanning.known j low
      simp only [and_true]
      tauto
    · rw [update_of_ne same, bit, or_iff_left (b := _ ∈ _)]
      intro member
      have place := ((mem_newSet proper inside below).mp member).2.2
      exact same ((position_div proper low).1.symm.trans place)
  · intro w outside
    rw [update_of_ne (by omega)]
    exact inv.maskRest w outside
  · apply inv.visits.congr
    intro i _
    rw [phase]
    exact Nat.lt_succ_iff

/-! ### One bit -/

section Bit

variable {hmIdx : Nat} {it mask : BitVec b} (phase : (state.tasks task).phase = .bits hmIdx it mask)
  (more : hasNext it = true)

include proper inside in
theorem bit_injective (below : hmIdx < call.grid.size task) {q j : Nat} (unseen : call.New start q)
    (own : call.owner b q = task) (turn : call.turn b q = hmIdx) (bit : q % b = j) :
    q = call.grid.word task hmIdx * b + j := by
  have place := ((owner_turn_iff proper inside below unseen.1).mp ⟨own, turn⟩).2
  rw [← place, ← bit, Nat.mul_comm]
  exact (Nat.div_add_mod q b).symm

/-- A step from bit to bit of a word joins nothing. -/
theorem joined_bits {it mask after seen : BitVec b}
    (phase : (tasks task).phase = .bits hmIdx it mask)
    (still : new.phase = .bits hmIdx after seen) (q : Nat) :
    call.Joined start (update tasks task new) q ↔ call.Joined start tasks q := by
  apply joined_congr
  intro q _ _
  rw [phase, still]
  rfl

/-- The task has passed one more bit; what it marks is given. -/
theorem Scanning.pass {loaded seen : BitVec b}
    (scanning : call.Scanning start tasks task hmIdx it mask loaded)
    (more : hasNext it = true) (same : new.numHits = (tasks task).numHits)
    (joins : ∀ q, call.Joined start tasks q → call.Joined start (update tasks task new) q)
    (marked : ∀ j < b, seen.getLsbD j = true ↔ loaded.getLsbD j = true ∨
      (call.grid.word task hmIdx * b + j ∈ call.newSet start task hmIdx ∧
        (Bitmask.skip it).getLsbD j = false)) :
    call.Scanning start (update tasks task new) task hmIdx (Bitmask.skip it) seen loaded where
  below := scanning.below
  initial := scanning.initial
  known j inner bit := (scanning.known j inner bit).imp_right (joins _)
  todo j inner bit := by
    rw [getLsbD_skip more, Bool.and_eq_true] at bit
    exact scanning.todo j inner bit.1
  marked := marked
  hits := by
    rw [update_self, same]
    exact scanning.hits

include proper inv inside phase more in
theorem Inv.skip (miss : call.grid.word task hmIdx * b + next it ∉ call.newSet start task hmIdx) :
    call.Inv start { state with
      tasks := update state.tasks task
        { state.tasks task with phase := .bits hmIdx (Bitmask.skip it) mask } } := by
  have now := inv.working task inside
  rw [Working, phase] at now
  obtain ⟨loaded, scanning⟩ := now
  let new : TaskState b := { state.tasks task with phase := .bits hmIdx (Bitmask.skip it) mask }
  -- only the bit of the position changes
  have kept : ∀ j, j ≠ next it → (Bitmask.skip it).getLsbD j = it.getLsbD j := by
    intro j other
    rw [getLsbD_skip more, decide_eq_true other, Bool.and_true]
  have handled : ∀ q, call.Handled start (update state.tasks task new) q ↔
      call.Handled start state.tasks q := by
    apply handled_congr
    intro q unseen own
    rw [phase]
    refine or_congr_right (and_congr_right fun turn => ?_)
    rw [kept]
    intro bit
    have place := bit_injective proper inside scanning.below unseen own turn bit
    exact miss (place ▸ mem_filter.mpr ⟨mem_range.mpr unseen.1, unseen, own, turn⟩)
  have joined : ∀ q, call.Joined start (update state.tasks task new) q ↔
      call.Joined start state.tasks q :=
    joined_bits phase rfl
  have here : call.Working start (update state.tasks task new) task := by
    rw [Working, update_self]
    refine ⟨loaded, scanning.pass more rfl (fun q => (joined q).mpr) fun j inner => ?_⟩
    rw [scanning.marked j inner]
    refine or_congr_right (and_congr_right fun member => ?_)
    rw [kept]
    rintro rfl
    exact miss member
  apply inv.moved handled (fun q => (joined q).mpr) rfl (by rw [phase]; rfl) here
  · intro w inner j low
    exact (inv.mask w inner j low).trans (or_congr_right (joined _).symm)
  · exact inv.maskRest
  · apply inv.visits.congr
    intro i _
    rw [phase]
    rfl

/-! ### Deliveries -/

include proper inv in
theorem Inv.row {q : Nat} {slot : Slot}
    (home : call.home (call.request.keys q) = call.grid.part task)
    (stored : (start.parts (call.grid.part task)).slotMap.lookup (call.request.keys q) =
      some slot) :
    (state.parts (call.grid.part task)).row call.config slot = call.storedRow start q := by
  rw [storedRow, home, Partition.get, stored, map_some, getD_some]
  exact (inv.parts _).rows slot ((proper.formed _).held_allocated stored)

include inv in
theorem Inv.slotMap (p : Nat) : (state.parts p).slotMap = (start.parts p).slotMap :=
  congrArg SlotPool.held (inv.parts p).pool

include inv in
theorem Inv.copied_or_pending {q : Nat} (own : call.owner b q = task) :
    (call.Copied start state.tasks q ∨ ∃ slot, (state.tasks task).prev = some (slot, q)) ↔
      call.Handled start state.tasks q ∧ call.request.withValues = true := by
  rw [Copied, own]
  constructor
  · rintro (⟨handled, values, -⟩ | ⟨slot, put⟩)
    · exact ⟨handled, values⟩
    · exact ⟨(inv.pending task slot q put).handled, (inv.pending task slot q put).withValues⟩
  · rintro ⟨handled, values⟩
    by_cases put : ∃ slot, (state.tasks task).prev = some (slot, q)
    · exact .inr put
    · exact .inl ⟨handled, values, not_exists.mp put⟩

include proper inv in
/-- The copy that was put off is made. -/
theorem Inv.flush_rows {copied : Nat → Prop} (grows : ∀ q, copied q ↔
      call.Copied start state.tasks q ∨ ∃ slot, (state.tasks task).prev = some (slot, q)) :
    Rows call start copied
      (call.flush (state.parts (call.grid.part task)) (state.tasks task).prev state.values) := by
  cases put : (state.tasks task).prev with
  | none =>
    apply inv.rows.congr
    intro q
    refine (grows q).trans (or_iff_left ?_)
    rw [put]
    rintro ⟨slot, same⟩
    exact absurd same (some_ne_none _).symm
  | some off =>
    obtain ⟨place, position⟩ := off
    have pending := inv.pending task place position put
    have same : call.home (call.request.keys position) = call.grid.part task := by
      rw [← pending.own]
      exact taskOf_part.symm
    apply inv.rows.copy proper _ (inv.row proper same pending.stored)
    intro q
    refine (grows q).trans (or_congr_right ?_)
    rw [put]
    constructor
    · rintro ⟨slot, same⟩
      exact (congrArg Prod.snd (some.inj same)).symm
    · rintro rfl
      exact ⟨place, rfl⟩

/-- A position of a task that handles it now, of a stored key. -/
structure Hits (call : FindCall Key) (start : FindState Key b) (tasks : Nat → TaskState b)
    (task q : Nat) (slot : Slot) :
    Prop where
  owner : call.owner b q = task
  home : call.home (call.request.keys q) = call.grid.part task
  stored : (start.parts (call.grid.part task)).slotMap.lookup (call.request.keys q) = some slot
  first : ¬ call.Handled start tasks q

section Delivered

variable {q : Nat} {slot : Slot} (hits : call.Hits start state.tasks task q slot)
  (handled : ∀ other, call.Handled start (update state.tasks task new) other ↔
    call.Handled start state.tasks other ∨ other = q)

include hits handled

theorem Hits.elsewhere {other : Nat} (apart : call.owner b other ≠ task) :
    call.Copied start (update state.tasks task new) other ↔
      call.Copied start state.tasks other := by
  have different : other ≠ q := fun same => apart (same ▸ hits.owner)
  rw [Copied, Copied, handled, or_iff_left different, update_of_ne apart]

include inv in
/-- With prefetching, the copy that was put off before is made now and the new one is put off. -/
theorem Hits.copied_put_off (values : call.request.withValues = true)
    (put : new.prev = some (slot, q)) (other : Nat) :
    call.Copied start (update state.tasks task new) other ↔
      call.Copied start state.tasks other ∨
        ∃ slot, (state.tasks task).prev = some (slot, other) := by
  by_cases own : call.owner b other = task
  · rw [inv.copied_or_pending own, Copied, handled, own, update_self, put]
    constructor
    · rintro ⟨earlier | same, -, kept⟩
      · exact ⟨earlier, values⟩
      · exact absurd (by rw [same]) (kept slot)
    · rintro ⟨earlier, -⟩
      refine ⟨.inl earlier, values, fun slot same => ?_⟩
      have position : q = other := congrArg Prod.snd (some.inj same)
      exact hits.first (position ▸ earlier)
  · rw [hits.elsewhere handled own, or_iff_left]
    rintro ⟨slot, put⟩
    exact own (inv.pending task slot other put).own

include inv in
theorem Hits.copied_at_once (values : call.request.withValues = true)
    (same : new.prev = (state.tasks task).prev)
    (other : Nat) :
    call.Copied start (update state.tasks task new) other ↔ call.Copied start state.tasks other ∨
      other = q := by
  by_cases own : call.owner b other = task
  · rw [Copied, Copied, handled, own, update_self, same]
    constructor
    · rintro ⟨earlier | same, -, kept⟩
      · exact .inl ⟨earlier, values, kept⟩
      · exact .inr same
    · rintro (⟨earlier, -, kept⟩ | rfl)
      · exact ⟨.inl earlier, values, kept⟩
      · exact ⟨.inr rfl, values, fun slot put => hits.first (inv.pending task slot _ put).handled⟩
  · rw [hits.elsewhere handled own, or_iff_left]
    rintro rfl
    exact own hits.owner

variable (delivered : new.prev =
  (call.deliver (state.parts (call.grid.part task)) slot q (state.tasks task).prev state.values).2)

include inv delivered

include proper in
theorem Hits.deliver_rows : Rows call start (call.Copied start (update state.tasks task new))
    (call.deliver (state.parts (call.grid.part task)) slot q
      (state.tasks task).prev state.values).1 := by
  rw [deliver] at delivered ⊢
  split
  · rename_i values
    split
    · rename_i prefetch
      rw [if_pos values, if_pos prefetch] at delivered
      exact inv.flush_rows proper (hits.copied_put_off inv handled values delivered)
    · rename_i prefetch
      rw [if_pos values, if_neg prefetch] at delivered
      exact inv.rows.copy proper (hits.copied_at_once inv handled values delivered)
        (inv.row proper hits.home hits.stored)
  · rename_i values
    apply inv.rows.congr
    intro other
    rw [Copied, Copied]
    exact ⟨fun copied => absurd copied.2.1 values, fun copied => absurd copied.2.1 values⟩

theorem Hits.pending (other : Nat) (place : Slot) (position : Nat)
    (put : (update state.tasks task new other).prev = some (place, position)) :
    call.Pending start (update state.tasks task new) other place position := by
  have grows := fun q early => (handled q).mpr (.inl early)
  by_cases same : other = task
  · rw [same, update_self, delivered, deliver] at put
    rw [same]
    split at put
    · rename_i withValues
      split at put
      · cases put
        exact ⟨withValues, hits.owner, (handled _).mpr (.inr rfl), hits.stored⟩
      · exact (inv.pending task place position put).congr grows
    · exact (inv.pending task place position put).congr grows
  · rw [update_of_ne same] at put
    exact (inv.pending other place position put).congr grows

end Delivered

include inv in
theorem Inv.parts_setMetadata (proper : call.Proper b start.parts) {key : Key} {slot : Slot}
    (stored : (start.parts (call.grid.part task)).slotMap.lookup key = some slot)
    (value : BitVec 64) (p : Nat) :
    Partition.SameRows call.config (start.parts p) (update state.parts (call.grid.part task)
      ((state.parts (call.grid.part task)).setMetadata call.config slot value) p) := by
  by_cases same : p = call.grid.part task
  · have held := (proper.formed (call.grid.part task)).held_allocated stored
    rw [same, update_self]
    rw [← (inv.parts (call.grid.part task)).slotBuffers] at held
    exact (inv.parts _).trans (Partition.SameRows.setMetadata proper.checked _ held value)
  · rw [update_of_ne same]
    exact inv.parts p

include proper in
theorem Scanning.todo_new {loaded : BitVec b}
    (scanning : call.Scanning start tasks task hmIdx it mask loaded)
    (more : hasNext it = true) {slot : Slot}
    (home : call.home (call.request.keys (call.grid.word task hmIdx * b + next it)) =
      call.grid.part task)
    (stored : (start.parts (call.grid.part task)).slotMap.lookup
      (call.request.keys (call.grid.word task hmIdx * b + next it)) = some slot) :
    call.New start (call.grid.word task hmIdx * b + next it) := by
  have low : next it < b := next_lt more
  obtain ⟨word, rest⟩ := position_div proper (w := call.grid.word task hmIdx) low
  obtain ⟨listed, unloaded⟩ := scanning.todo _ low (getLsbD_next more)
  refine ⟨listed, ?_, ?_⟩
  · -- a bit that was set at the start would be in the word that was loaded
    rw [word, rest, Bool.eq_false_iff]
    intro initial
    rw [scanning.initial _ low initial] at unloaded
    exact Bool.noConfusion unloaded
  · rw [home, stored]
    rfl

include proper inside phase more in
theorem handled_bit (below : hmIdx < call.grid.size task) {seen : BitVec b}
    (passed : new.phase = .bits hmIdx (Bitmask.skip it) seen)
    (unseen : call.New start (call.grid.word task hmIdx * b + next it))
    (owner : call.owner b (call.grid.word task hmIdx * b + next it) = task)
    (turn : call.turn b (call.grid.word task hmIdx * b + next it) = hmIdx) (q : Nat) :
    call.Handled start (update state.tasks task new) q ↔
      call.Handled start state.tasks q ∨ q = call.grid.word task hmIdx * b + next it := by
  by_cases own : call.owner b q = task
  · rw [Handled, Handled, own, update_self, phase, passed]
    change _ ∧ (_ < hmIdx ∨ (_ = hmIdx ∧ (Bitmask.skip it).getLsbD (q % b) = false)) ↔
      (_ ∧ (_ < hmIdx ∨ (_ = hmIdx ∧ it.getLsbD (q % b) = false))) ∨ _
    constructor
    · rintro ⟨fresh, early | ⟨now, unset⟩⟩
      · exact .inl ⟨fresh, .inl early⟩
      · by_cases bit : q % b = next it
        · exact .inr (bit_injective proper inside below fresh own now bit)
        · rw [getLsbD_skip more, decide_eq_true bit, Bool.and_true] at unset
          exact .inl ⟨fresh, .inr ⟨now, unset⟩⟩
    · rintro (⟨fresh, early | ⟨now, unset⟩⟩ | rfl)
      · exact ⟨fresh, .inl early⟩
      · exact ⟨fresh, .inr ⟨now, by rw [getLsbD_skip more, unset, Bool.false_and]⟩⟩
      · obtain ⟨-, rest⟩ := position_div proper (w := call.grid.word task hmIdx) (next_lt more)
        exact ⟨unseen, .inr ⟨turn, by rw [rest, getLsbD_skip more]; simp⟩⟩
  · rw [Handled, update_of_ne own, ← Handled, or_iff_left]
    rintro rfl
    exact own owner

include proper inv inside phase more in
/-- A hit: row and size are delivered, the bit is set and the metadata is renewed. -/
theorem Inv.hit {src : Slot}
    (home : call.home (call.request.keys (call.grid.word task hmIdx * b + next it)) =
      call.grid.part task)
    (found : (state.parts (call.grid.part task)).slotMap.lookup
      (call.request.keys (call.grid.word task hmIdx * b + next it)) = some src)
        (value : BitVec 64) :
    call.Inv start { state with
      values :=
  (call.deliver (state.parts (call.grid.part task)) src (call.grid.word task hmIdx * b + next it)
        (state.tasks task).prev state.values).1
      valueSizes := if call.request.withValueSizes then
        update state.valueSizes (call.grid.word task hmIdx * b + next it) call.config.maxValueSize
        else state.valueSizes
      parts := update state.parts (call.grid.part task)
        ((state.parts (call.grid.part task)).setMetadata call.config src value)
      tasks := update state.tasks task { state.tasks task with
        phase := .bits hmIdx (Bitmask.skip it) (set mask (next it))
        prev := (call.deliver (state.parts (call.grid.part task)) src
          (call.grid.word task hmIdx * b + next it)
          (state.tasks task).prev state.values).2 } } := by
  have now := inv.working task inside
  rw [Working, phase] at now
  obtain ⟨loaded, scanning⟩ := now
  obtain ⟨word, rest⟩ := position_div proper (w := call.grid.word task hmIdx) (next_lt more)
  have stored : (start.parts (call.grid.part task)).slotMap.lookup
      (call.request.keys (call.grid.word task hmIdx * b + next it)) = some src := by
    rw [← inv.slotMap]
    exact found
  have unseen := scanning.todo_new proper more home stored
  obtain ⟨owner, turn⟩ := (owner_turn_iff proper inside scanning.below unseen.1).mpr ⟨home, word⟩
  have member : call.grid.word task hmIdx * b + next it ∈ call.newSet start task hmIdx :=
    mem_filter.mpr ⟨mem_range.mpr unseen.1, unseen, owner, turn⟩
  have first : ¬ call.Handled start state.tasks (call.grid.word task hmIdx * b + next it) := by
    rintro ⟨-, passed⟩
    rw [owner, phase, turn, rest] at passed
    rcases passed with early | ⟨-, unset⟩
    · exact lt_irrefl hmIdx early
    · rw [getLsbD_next more] at unset
      exact Bool.noConfusion unset
  have hits : call.Hits start state.tasks task _ src := ⟨owner, home, stored, first⟩
  let new : TaskState b := { state.tasks task with
    phase := .bits hmIdx (Bitmask.skip it) (set mask (next it))
    prev := (call.deliver (state.parts (call.grid.part task)) src
      (call.grid.word task hmIdx * b + next it)
      (state.tasks task).prev state.values).2 }
  have handled : ∀ q, call.Handled start (update state.tasks task new) q ↔
      call.Handled start state.tasks q ∨ q = call.grid.word task hmIdx * b + next it :=
    handled_bit proper inside phase more scanning.below rfl unseen owner turn
  have joined : ∀ q, call.Joined start (update state.tasks task new) q ↔
      call.Joined start state.tasks q :=
    joined_bits phase rfl
  have here : call.Working start (update state.tasks task new) task := by
    rw [Working, update_self]
    refine ⟨loaded, scanning.pass more rfl (fun q => (joined q).mpr) fun j inner => ?_⟩
    rw [getLsbD_set _ _ inner, Bool.or_eq_true, scanning.marked j inner, getLsbD_skip more]
    by_cases same : j = next it
    · subst same
      simp [member]
    · simp [same]
  exact {
    parts := inv.parts_setMetadata proper stored value
    mask := fun w inner j low => (inv.mask w inner j low).trans (or_congr_right (joined _).symm)
    maskRest := inv.maskRest
    rows := hits.deliver_rows proper inv handled rfl
    sizes := inv.sizes.write handled
    pending := hits.pending inv handled rfl
    working := inv.others (fun q => (joined q).mpr) here
    total := by
      rw [total_congr (by rw [phase]; rfl)]
      exact inv.total
    visits := inv.visits.congr fun i _ => by
      rw [phase]
      rfl }

include proper inv inside phase more in
theorem Inv.handle : call.Inv start (call.handle task hmIdx it mask state) := by
  have now := inv.working task inside
  rw [Working, phase] at now
  obtain ⟨loaded, scanning⟩ := now
  rw [FindCall.handle]
  dsimp only
  split
  · rename_i away
    apply inv.skip proper inside phase more
    intro member
    exact away ((mem_newSet proper inside scanning.below).mp member).2.1
  · rename_i home
    split
    · rename_i absent
      apply inv.skip proper inside phase more
      intro member
      have stored := ((mem_newSet proper inside scanning.below).mp member).1.2.2
      rw [not_not.mp home, ← inv.slotMap, absent] at stored
      exact Bool.noConfusion stored
    · rename_i src found
      exact inv.hit proper inside phase more (not_not.mp home) found _

end Bit

/-- The end of a task: every position it owns is passed, joined and copied. -/
theorem Inv.finish (proper : call.Proper b start.parts) (inv : call.Inv start state)
    (inside : task < call.grid.numTasks)
    (phase : (state.tasks task).phase = .word (call.grid.size task)) :
      call.Inv start (call.finish task state) := by
  have now := inv.working task inside
  rw [Working, phase] at now
  let new : TaskState b := { state.tasks task with phase := .done, prev := none }
  have handled : ∀ q, call.Handled start (update state.tasks task new) q ↔
      call.Handled start state.tasks q := by
    apply handled_congr
    intro q _ own
    rw [phase, ← own]
    exact iff_of_true trivial (turn_lt q)
  have joined : ∀ q, call.Joined start (update state.tasks task new) q ↔
      call.Joined start state.tasks q := by
    apply joined_congr
    intro q _ own
    rw [phase, ← own]
    exact iff_of_true trivial (turn_lt q)
  have here : call.Working start (update state.tasks task new) task := by
    rw [Working, update_self]
  have copied : ∀ q, call.Copied start (update state.tasks task new) q ↔
      call.Copied start state.tasks q ∨ ∃ slot, (state.tasks task).prev = some (slot, q) := by
    intro q
    by_cases own : call.owner b q = task
    · rw [inv.copied_or_pending own, Copied, handled, own, update_self]
      exact and_congr_right fun _ => and_iff_left fun _ => (some_ne_none _).symm
    · rw [Copied, Copied, handled, update_of_ne own, or_iff_left]
      rintro ⟨slot, put⟩
      exact own (inv.pending task slot q put).own
  exact {
    parts := inv.parts
    mask := fun w inner j low => (inv.mask w inner j low).trans (or_congr_right (joined _).symm)
    maskRest := inv.maskRest
    rows := inv.flush_rows proper copied
    sizes := inv.sizes.congr handled
    pending := by
      intro other slot q put
      change (update state.tasks task new other).prev = _ at put
      by_cases same : other = task
      · rw [same, update_self] at put
        exact absurd put (some_ne_none _).symm
      · rw [update_of_ne same] at put
        exact (inv.pending other slot q put).congr fun q => (handled q).mpr
    working := inv.others (fun q => (joined q).mpr) here
    total := by
      change state.totalNumHits + (state.tasks task).numHits = ∑ other ∈ _,
        if (update state.tasks task new other).phase.isDone then _ else _
      have member : task ∈ Finset.range call.grid.numTasks := mem_range.mpr inside
      rw [inv.total, now.2, ← sum_erase_add _ _ member, ← sum_erase_add _ _ member,
        update_self, phase]
      simp only [Phase.isDone, Bool.false_eq_true, if_false, if_true, add_zero, new]
      congr 1
      apply sum_congr rfl
      intro other elsewhere
      rw [update_of_ne (ne_of_mem_erase elsewhere)]
    visits := inv.visits.congr fun i below => by
      rw [phase]
      exact iff_of_true trivial below }

theorem Inv.step (proper : call.Proper b start.parts) (inv : call.Inv start state)
    (inside : task < call.grid.numTasks) :
    call.Inv start (call.step state task) := by
  rw [FindCall.step]
  split
  · rename_i hmIdx phase
    split
    · rename_i last
      exact inv.finish proper inside (last ▸ phase)
    · rename_i more
      exact inv.load proper inside phase more
  · rename_i hmIdx it mask phase
    split
    · rename_i more
      exact inv.handle proper inside phase more
    · rename_i last
      exact inv.joinWord proper inside phase (by simpa using last)
  · exact inv

end FindCall

end EmbedCache.STLContainerTable
