import EmbedCache.StlFindSteps

/-! `STLContainerTable::find_` under every schedule: it comes to an end, and mask, values, sizes and
the returned count are what one pass over the keys would leave. -/

namespace EmbedCache.STLContainerTable

open Lib HostTable Bitmask Function Finset Partition

variable {Key : Type*} [DecidableEq Key] {b : Nat}

namespace FindCall

variable {call : FindCall Key} {start state : FindState Key b} {task : Nat}

/-! ### Termination -/

def work (size : Nat) : Phase b → Nat
  | .word hmIdx => (size - hmIdx) * (b + 2) + 1
  | .bits hmIdx it _ => (size - hmIdx - 1) * (b + 2) + count it + 2
  | .done => 0

theorem count_le (repr : BitVec b) : count repr ≤ b := by
  calc count repr ≤ (List.range b).length := List.countP_le_length
    _ = b := List.length_range

theorem count_skip {it : BitVec b} (more : hasNext it = true) :
    count (Bitmask.skip it) < count it := by
  rw [count_eq_card, count_eq_card]
  apply card_lt_card
  refine ⟨?_, ?_⟩
  · intro j member
    obtain ⟨inside, bit⟩ := mem_filter.mp member
    rw [getLsbD_skip more, Bool.and_eq_true] at bit
    exact mem_filter.mpr ⟨inside, bit.1⟩
  · intro contained
    have bit := contained (mem_filter.mpr ⟨mem_range.mpr (next_lt more), getLsbD_next more⟩)
    have still := (mem_filter.mp bit).2
    rw [getLsbD_skip more] at still
    simp at still

theorem step_tasks_other {other : Nat} (different : other ≠ task) :
    (call.step state task).tasks other = state.tasks other := by
  rw [step]
  split
  · split
    · exact update_of_ne different _ _
    · exact update_of_ne different _ _
  · split
    · rw [handle]
      dsimp only
      split
      · exact update_of_ne different _ _
      · split
        · exact update_of_ne different _ _
        · exact update_of_ne different _ _
    · exact update_of_ne different _ _
  · rfl

/-- A hit and a miss both leave the bit behind. -/
theorem handle_phase {hmIdx : Nat} {it mask : BitVec b} :
    ∃ after, ((call.handle task hmIdx it mask state).tasks task).phase =
      .bits hmIdx (Bitmask.skip it) after := by
  rw [handle]
  dsimp only
  split
  · exact ⟨mask, by simp only [update_self]⟩
  · split
    · exact ⟨mask, by simp only [update_self]⟩
    · exact ⟨set mask (next it), by simp only [update_self]⟩

theorem step_work (inv : call.Inv start state) (inside : task < call.grid.numTasks) :
    work (call.grid.size task) ((call.step state task).tasks task).phase ≤
      work (call.grid.size task) (state.tasks task).phase - 1 := by
  have now := inv.working task inside
  rw [step]
  split
  · rename_i hmIdx phase
    rw [Working, phase] at now
    split
    · change work _ (update state.tasks task _ task).phase ≤ _
      rw [update_self]
      exact Nat.zero_le _
    · rename_i more
      change work _ (update state.tasks task _ task).phase ≤ _
      rw [update_self, phase, work, work]
      have short := count_le (clip (invert (state.hitMask (call.grid.word task hmIdx)))
        (call.request.n - call.grid.word task hmIdx * b))
      have below : hmIdx < call.grid.size task := lt_of_le_of_ne now.1 more
      obtain ⟨rest, size⟩ : ∃ rest, call.grid.size task - hmIdx = rest + 1 :=
        ⟨_, (Nat.succ_pred_eq_of_pos (by omega)).symm⟩
      rw [size, Nat.add_sub_cancel, Nat.succ_mul]
      omega
  · rename_i hmIdx it mask phase
    split
    · rename_i more
      obtain ⟨after, next⟩ := @handle_phase _ _ _ call state task hmIdx it mask
      have fewer := count_skip more
      rw [next, phase, work, work]
      omega
    · change work _ (update state.tasks task _ task).phase ≤ _
      rw [update_self, phase, work, work, Nat.sub_sub]
      omega
  · rename_i phase
    rw [phase, work]

section

variable (proper : call.Proper b start.parts) {schedule : List Nat}
  (tasks : ∀ task ∈ schedule, task < call.grid.numTasks)

include proper tasks

theorem Inv.run (inv : call.Inv start state) :
    call.Inv start (call.run schedule state) := by
  induction schedule generalizing state with
  | nil => exact inv
  | cons task rest ih =>
    exact ih (fun other member => tasks other (List.mem_cons_of_mem _ member))
      (inv.step proper (tasks task List.mem_cons_self))

theorem run_work (inv : call.Inv start state) (inside : task < call.grid.numTasks) :
    work (call.grid.size task) ((call.run schedule state).tasks task).phase ≤
      work (call.grid.size task) (state.tasks task).phase - schedule.count task := by
  induction schedule generalizing state with
  | nil => exact le_refl _
  | cons first rest ih =>
    have later := ih (fun other member => tasks other (List.mem_cons_of_mem _ member))
      (inv.step proper (tasks first List.mem_cons_self))
    refine le_trans later ?_
    by_cases same : first = task
    · subst same
      have shorter := step_work inv inside
      rw [List.count_cons_self]
      omega
    · rw [step_tasks_other (Ne.symm same), List.count_cons_of_ne same]

/-- A task that gets enough turns comes to its end. -/
theorem run_done (fresh : start.Fresh) (inside : task < call.grid.numTasks)
    (enough : call.grid.size task * (b + 2) + 1 ≤ schedule.count task) :
    ((call.run schedule start).tasks task).phase = .done := by
  have left := run_work proper tasks (inv_fresh fresh : call.Inv start start) inside
  have all : work (call.grid.size task) (start.tasks task).phase =
      call.grid.size task * (b + 2) + 1 := by
    rw [fresh.tasks, work, Nat.sub_zero]
  rw [all, Nat.sub_eq_zero_of_le enough] at left
  cases phase : ((call.run schedule start).tasks task).phase with
  | done => rfl
  | word hmIdx =>
    rw [phase, work] at left
    omega
  | bits hmIdx it mask =>
    rw [phase, work] at left
    omega

end

/-! ### The end of a call -/

def allNew (call : FindCall Key) (start : FindState Key b) : Finset Nat :=
  (Finset.range call.request.n).filter fun q => call.New start q

theorem sum_hits (proper : call.Proper b start.parts) :
    ∑ task ∈ Finset.range call.grid.numTasks, call.hitsBefore start task (call.grid.size task) =
      ((call.allNew start).card : Int) := by
  have byTask : (call.allNew start).card =
      ∑ task ∈ Finset.range call.grid.numTasks,
        ((call.allNew start).filter fun q => call.owner b q = task).card :=
    card_eq_sum_card_fiberwise fun q _ => mem_coe.mpr (mem_range.mpr (owner_lt proper q))
  have byWord : ∀ task, ((call.allNew start).filter fun q => call.owner b q = task).card =
      ∑ hmIdx ∈ Finset.range (call.grid.size task), (call.newSet start task hmIdx).card := by
    intro task
    rw [card_eq_sum_card_fiberwise (t := Finset.range (call.grid.size task)) (f := call.turn b)]
    · apply sum_congr rfl
      intro hmIdx _
      congr 1
      ext q
      simp only [allNew, newSet, mem_filter, and_assoc]
    · intro q member
      have own := (mem_filter.mp member).2
      exact mem_coe.mpr (mem_range.mpr (own ▸ turn_lt q))
  rw [byTask, Nat.cast_sum]
  apply sum_congr rfl
  intro task _
  rw [byWord task, Nat.cast_sum, hitsBefore]

section End

variable (proper : call.Proper b start.parts) (inv : call.Inv start state)
  (done : ∀ task < call.grid.numTasks, (state.tasks task).phase = .done)

include proper done

theorem handled_at_end (q : Nat) : call.Handled start state.tasks q ↔ call.New start q := by
  rw [Handled, done _ (owner_lt proper q)]
  exact and_iff_left trivial

theorem joined_at_end (q : Nat) : call.Joined start state.tasks q ↔ call.New start q := by
  rw [Joined, done _ (owner_lt proper q)]
  exact and_iff_left trivial

include inv

theorem copied_at_end (q : Nat) :
    call.Copied start state.tasks q ↔ call.New start q ∧ call.request.withValues = true := by
  rw [Copied, handled_at_end proper done]
  refine and_congr_right fun _ => and_iff_left fun slot => ?_
  have ended := inv.working _ (owner_lt proper q)
  rw [Working, done _ (owner_lt proper q)] at ended
  rw [ended]
  exact (Option.some_ne_none _).symm

theorem total_at_end : state.totalNumHits = (call.allNew start).card := by
  rw [inv.total, ← sum_hits proper]
  apply sum_congr rfl
  intro task member
  rw [done task (mem_range.mp member)]
  rfl

omit proper in
theorem visits_at_end {p w : Nat} (partInside : p < call.grid.parts)
    (wordInside : w < call.grid.words) :
    state.visits p w = 1 := by
  apply inv.visits.one p partInside w wordInside
  rw [done _ (TaskGrid.taskOf_lt partInside)]
  trivial

end End

end FindCall

section Find

variable (config : STLContainerTableConfig) (contents : Key → Option (List UInt8))
  (request : FindRequest Key)

def NewHit (before : FindBuffers b) (q : Nat) : Prop :=
  q < request.n ∧ (before.hitMask (q / b)).getLsbD (q % b) = false ∧
    (contents (request.keys q)).isSome

instance (before : FindBuffers b) (q : Nat) : Decidable (NewHit contents request before q) :=
  inferInstanceAs (Decidable (_ ∧ _ ∧ _))

/-- The outcome `find` is meant to have on a map with the given rows. -/
structure FindExact (before after : FindBuffers b) (numHits : Int) : Prop where
  mask : ∀ q < request.n, (after.hitMask (q / b)).getLsbD (q % b) =
    ((before.hitMask (q / b)).getLsbD (q % b) || (contents (request.keys q)).isSome)
  maskRest : ∀ w, ∀ j < b, request.n ≤ w * b + j →
    (after.hitMask w).getLsbD j = (before.hitMask w).getLsbD j
  values : ∀ q row, NewHit contents request before q → contents (request.keys q) = some row →
    request.withValues = true →
      readRange after.values (q * request.valueStride) config.maxValueSize = row
  valuesRest : ∀ a, (∀ q, NewHit contents request before q → request.withValues = true →
    a < q * request.valueStride ∨ q * request.valueStride + config.maxValueSize ≤ a) →
      after.values a = before.values a
  sizes : ∀ q, NewHit contents request before q → request.withValueSizes = true →
    after.valueSizes q = config.maxValueSize
  sizesRest : ∀ q, ¬ NewHit contents request before q ∨ request.withValueSizes = false →
    after.valueSizes q = before.valueSizes q
  count : numHits = ((Finset.range request.n).filter fun q => NewHit contents request before q).card

variable {config request} {hash : Key → BitVec 64} {buffers : FindBuffers b}
  {parts : Nat → Partition Key}

/-- What is left when all tasks are done. -/
theorem exact_at_end {call : FindCall Key} {before after : FindState Key b}
    (same : call.config = config ∧ call.home = home config hash ∧ call.request = request)
    (proper : call.Proper b before.parts) (inv : call.Inv before after)
    (done : ∀ task < call.grid.numTasks, (after.tasks task).phase = .done) :
    FindExact config (stored config hash before.parts) request before.toFindBuffers
      after.toFindBuffers
      after.totalNumHits := by
  obtain ⟨rfl, homes, rfl⟩ := same
  have new (q : Nat) : call.New before q ↔
      NewHit (stored call.config hash before.parts) call.request before.toFindBuffers q := by
    rw [NewHit, stored, ← homes, Partition.get, Option.isSome_map]
    rfl
  have bits : ∀ w < call.grid.words, ∀ j < b, (after.hitMask w).getLsbD j = true ↔
      (before.hitMask w).getLsbD j = true ∨ call.New before (w * b + j) := by
    intro w inside j below
    rw [inv.mask w inside j below, FindCall.joined_at_end proper done]
  exact {
    mask := by
      intro q listed
      have rest := Nat.mod_lt q proper.wide
      have sum : q / b * b + q % b = q := by
        rw [Nat.mul_comm]
        exact Nat.div_add_mod q b
      have bit := bits (q / b) (proper.words ▸ word_lt proper.wide listed) (q % b) rest
      rw [sum, new q, NewHit] at bit
      rw [Bool.eq_iff_iff, bit, Bool.or_eq_true]
      cases (before.hitMask (q / b)).getLsbD (q % b) <;> simp [listed]
    maskRest := by
      intro w j below past
      by_cases inside : w < call.grid.words
      · have bit := bits w inside j below
        rw [or_iff_left fun fresh => absurd fresh.1 (by omega)] at bit
        exact Bool.eq_iff_iff.mpr bit
      · rw [inv.maskRest w (by omega)]
    values := by
      intro q row hit found withValues
      have copied := (FindCall.copied_at_end proper inv done q).mpr ⟨(new q).mpr hit, withValues⟩
      rw [inv.rows.set q copied, FindCall.storedRow, homes]
      change (stored call.config hash before.parts (call.request.keys q)).getD [] = row
      rw [found, Option.getD_some]
    valuesRest := by
      intro a outside
      apply inv.rows.kept
      intro q copied
      obtain ⟨fresh, withValues⟩ := (FindCall.copied_at_end proper inv done q).mp copied
      exact outside q ((new q).mp fresh) withValues
    sizes := fun q hit =>
      inv.sizes.set q ((FindCall.handled_at_end proper done q).mpr ((new q).mpr hit))
    sizesRest := by
      intro q absent
      apply inv.sizes.kept
      exact absent.imp_left fun missed handled =>
        missed ((new q).mp ((FindCall.handled_at_end proper done q).mp handled))
    count := by
      rw [FindCall.total_at_end proper inv done, FindCall.allNew]
      simp only [new] }

variable (checked : config.Checked) (wide : 0 < b)
  (formed : ∀ p, (parts p).WellFormed config (home config hash) p) (lruTime : Nat → BitVec 64)

include checked wide formed lruTime in
/-- Under every fair schedule, `find` ends as it should. -/
theorem find_exact {schedule : List Nat}
    (fair : FairSchedule config b request.n schedule)
    (allowed : request.n = 0 ∨
      (config.maxValueSize ≤ request.valueStride ∧ FitsInt64 config b request.n)) :
    ∃ after, find checked wide hash request lruTime schedule buffers parts = some after ∧
      FindExact config (stored config hash parts) request buffers after.toFindBuffers
        after.totalNumHits ∧
      (∀ p < config.numPartitions, ∀ w < maskSize b request.n, after.visits p w = 1) ∧
      ∀ p, SameRows config (parts p) (after.parts p) := by
  rw [find]
  by_cases some_keys : 0 < request.n
  · obtain ⟨spaced, fits⟩ := allowed.resolve_left some_keys.ne'
    rw [dif_pos some_keys, if_neg (not_or.mpr ⟨not_lt.mpr spaced, not_not.mpr fits⟩)]
    refine ⟨_, rfl, ?_⟩
    let call : FindCall Key :=
      ⟨config, home config hash, request, lruTime, findGrid checked wide some_keys⟩
    have proper : call.Proper b parts :=
      ⟨checked, wide, rfl, fun key => Partitioner.part_lt _ checked.numPartitions_pos _,
        spaced, formed⟩
    have fresh : (FindState.begin buffers parts : FindState Key b).Fresh := ⟨rfl, rfl, rfl⟩
    have inv : call.Inv (.begin buffers parts) (call.run schedule (.begin buffers parts)) :=
      FindCall.Inv.run proper fair.tasks (FindCall.inv_fresh fresh)
    have done : ∀ task < call.grid.numTasks,
        ((call.run schedule (.begin buffers parts)).tasks task).phase = .done := by
      intro task inside
      apply FindCall.run_done proper fair.tasks fresh inside
      have short : call.grid.size task ≤ min config.maxFindTaskSize (maskSize b request.n) :=
        min_le_min_left _ (Nat.sub_le _ _)
      calc call.grid.size task * (b + 2) + 1
          ≤ min config.maxFindTaskSize (maskSize b request.n) * (b + 2) + 1 :=
            Nat.add_le_add_right (Nat.mul_le_mul_right _ short) 1
        _ ≤ schedule.count task := fair.turns task inside
    exact ⟨exact_at_end ⟨rfl, rfl, rfl⟩ proper inv done,
      fun p partInside w wordInside => FindCall.visits_at_end inv done partInside wordInside,
        inv.parts⟩
  · rw [dif_neg some_keys]
    have none_listed : ∀ q, ¬ q < request.n := by omega
    have missed : ∀ q, ¬ NewHit (stored config hash parts) request buffers q := fun q hit =>
      none_listed q hit.1
    refine ⟨_, rfl, ?_, ?_, fun p => SameRows.refl _⟩
    · exact {
        mask := fun q listed => absurd listed (none_listed q)
        maskRest := fun _ _ _ _ => rfl
        values := fun q _ hit => absurd hit (missed q)
        valuesRest := fun _ _ => rfl
        sizes := fun q hit => absurd hit (missed q)
        sizesRest := fun _ _ => rfl
        count := by
          rw [filter_false_of_mem fun q _ => missed q]
          rfl }
    · intro p _ w inside
      exact absurd (word_start_lt wide inside) (by omega)

theorem fairSchedule_rounds (config : STLContainerTableConfig) (b n : Nat) :
    FairSchedule config b n
      (List.replicate (min config.maxFindTaskSize (maskSize b n) * (b + 2) + 1)
        (List.range (config.numPartitions * numTasksPerPart config b n))).flatten where
  tasks := by
    intro task member
    obtain ⟨round, listed, inside⟩ := List.mem_flatten.mp member
    rw [List.eq_of_mem_replicate listed] at inside
    exact List.mem_range.mp inside
  turns := by
    intro task inside
    have once : (List.range (config.numPartitions * numTasksPerPart config b n)).count task = 1 :=
      List.count_eq_one_of_mem List.nodup_range (List.mem_range.mpr inside)
    rw [List.count_flatten, List.map_replicate, List.sum_replicate, once, smul_eq_mul, Nat.mul_one]

include checked wide formed lruTime in
/-- `find` comes to the right end under all fair schedules unless a check fails or a number
overflows. -/
theorem find_any_schedule_iff :
    (∀ schedule, FairSchedule config b request.n schedule →
      ∃ after, find checked wide hash request lruTime schedule buffers parts = some after ∧
        FindExact config (stored config hash parts) request buffers after.toFindBuffers
          after.totalNumHits ∧
        ∀ p < config.numPartitions, ∀ w < maskSize b request.n, after.visits p w = 1) ↔
      request.n = 0 ∨
        (config.maxValueSize ≤ request.valueStride ∧ FitsInt64 config b request.n) := by
  constructor
  · intro ends
    obtain ⟨after, ended, -⟩ := ends _ (fairSchedule_rounds config b request.n)
    by_cases some_keys : 0 < request.n
    · rw [find, dif_pos some_keys] at ended
      split at ended
      · exact absurd ended (Option.some_ne_none _).symm
      · rename_i passed
        obtain ⟨spaced, fits⟩ := not_or.mp passed
        exact .inr ⟨not_lt.mp spaced, not_not.mp fits⟩
    · exact .inl (by omega)
  · intro allowed schedule fair
    obtain ⟨after, ended, exact, visits, -⟩ := find_exact checked wide formed lruTime fair allowed
    exact ⟨after, ended, exact, visits⟩

end Find

/-- A table of one partition for rows of one `float`, with tasks of any size. -/
def floatConfig (maxFindTaskSize : Nat) (policy : OverflowPolicyConfig) :
    STLContainerTableConfig where
  maxValueSize := 4
  valueDtype := .float32
  numPartitions := 1
  partitioner := .alwaysZero
  maxFindTaskSize := maxFindTaskSize
  valueAlignment := 4
  allocationRate := 64
  prefetchValues := true
  overflowPolicy := policy

def unlimited : OverflowPolicyConfig := ⟨2 ^ 63 - 1, .evictRandom, 4 / 5, by norm_num, by norm_num⟩

theorem floatConfig_checked {maxFindTaskSize : Nat} (positive : 0 < maxFindTaskSize)
    (bounded : maxFindTaskSize < 2 ^ 63)
    (policy : OverflowPolicyConfig) : (floatConfig maxFindTaskSize policy).Checked where
  maxValueSize_pos := (by decide : 0 < 4)
  maxValueSize_le := (by decide : 4 ≤ 2 ^ 31 - 1 - 4)
  whole_elements := (by decide : 4 % 4 = 0)
  numPartitions_pow := ⟨0, by decide, (by decide : 1 = 2 ^ 0)⟩
  maxFindTaskSize_pos := positive
  maxFindTaskSize_lt := bounded
  valueAlignment_pow := ⟨2, by decide, (by decide : 4 = 2 ^ 2)⟩
  allocationRate_ge := (by decide : 4 ≤ 64)
  allocationRate_lt := (by decide : 64 < 2 ^ 63)

theorem partition_exists {config : STLContainerTableConfig} (checked : config.Checked)
    (some_slots : 0 < config.slotsPerBuffer) {home : Nat → Nat} {p : Nat} (chosen : Option Nat)
    (own : ∀ key ∈ chosen, home key = p) :
    ∃ part : Partition Nat, part.WellFormed config home p ∧
      ∀ key ∈ chosen, (part.get config key).isSome := by
  cases chosen with
  | none => exact ⟨empty, WellFormed.empty, fun key member =>
    absurd member (Option.not_mem_none key)⟩
  | some key =>
    have formedEmpty : (empty : Partition Nat).WellFormed config home p := WellFormed.empty
    obtain ⟨part, -, formed, effect⟩ := Partition.insert_spec ⟨id, fun _ => List.Perm.refl _⟩
      checked some_slots formedEmpty 0 (le_refl config.maxValueSize) (own key rfl) fun _ => 1
    refine ⟨part, formed, fun listed same => ?_⟩
    rw [← Option.mem_some_iff.mp same]
    cases effect with
    | replaced _ _ rows => rw [rows, update_self]; rfl
    | added _ _ _ _ _ _ rows => rw [rows, update_self]; rfl

/-- A table with at most one chosen key in each partition. -/
theorem table_exists {config : STLContainerTableConfig} (checked : config.Checked)
    (some_slots : 0 < config.slotsPerBuffer) {hash : Nat → BitVec 64} (chosen : Nat → Option Nat)
    (own : ∀ p, ∀ key ∈ chosen p, home config hash key = p) :
    ∃ parts : Nat → Partition Nat, (∀ p, (parts p).WellFormed config (home config hash) p) ∧
      ∀ p, ∀ key ∈ chosen p, (stored config hash parts key).isSome := by
  choose parts formed present using fun p => partition_exists checked some_slots (chosen p) (own p)
  refine ⟨parts, formed, fun p key member => ?_⟩
  rw [stored, own p key member]
  exact present p key member

theorem floatConfig_slots (maxFindTaskSize : Nat) :
    (floatConfig maxFindTaskSize unlimited).slotsPerBuffer = 16 := by
  change 64 / ((4 + 0 + 4 - 1) / 4 * 4) = 16
  decide

def repeatRequest (n : Nat) (key : Nat) : FindRequest Nat := ⟨n, fun _ => key, 4, true, true⟩

def zeroBuffers : FindBuffers 64 := ⟨fun _ => 0, fun _ => 0, fun _ => 0⟩

/-- Two partitions, by the last bit of the key, and tasks of one word. -/
def splitConfig : STLContainerTableConfig :=
  { floatConfig 1 unlimited with numPartitions := 2, partitioner := .stdHash }

theorem splitConfig_checked : splitConfig.Checked :=
  { floatConfig_checked one_pos (by decide) unlimited with
    numPartitions_pow := ⟨1, by decide, (by decide : 2 = 2 ^ 1)⟩ }

/-- Two words: the keys 6 and 7 of the two partitions in turn, the first of them found before. -/
def splitRequest : FindRequest Nat := ⟨65, fun q => 6 + q % 2, 4, true, true⟩

def firstFound : FindBuffers 64 := { zeroBuffers with hitMask := fun w => if w = 0 then 1 else 0 }

theorem find_any_schedule_two_partitions :
    ∃ parts : Nat → Partition Nat,
      (stored splitConfig (BitVec.ofNat 64) parts 6).isSome ∧
        (stored splitConfig (BitVec.ofNat 64) parts 7).isSome ∧
      (home splitConfig (BitVec.ofNat 64) 6, home splitConfig (BitVec.ofNat 64) 7) = (0, 1) ∧
      splitConfig.numPartitions * numTasksPerPart splitConfig 64 65 = 4 ∧
      ∀ schedule, FairSchedule splitConfig 64 65 schedule →
        ∃ after, find splitConfig_checked
          (by decide : 0 < 64) (BitVec.ofNat 64) splitRequest (fun _ => 0) schedule
            firstFound parts = some after ∧
          FindExact splitConfig (stored splitConfig (BitVec.ofNat 64) parts) splitRequest firstFound
            after.toFindBuffers after.totalNumHits ∧
          ∀ p < 2, ∀ w < maskSize 64 65, after.visits p w = 1 := by
  have slots : splitConfig.slotsPerBuffer = 16 := floatConfig_slots 1
  have own : ∀ p, ∀ key ∈ (if p < 2 then some (6 + p) else none),
      home splitConfig (BitVec.ofNat 64) key = p := by
    intro p key member
    obtain ⟨inside, same⟩ := Option.mem_ite_none_right.mp member
    obtain rfl | rfl : p = 0 ∨ p = 1 := by omega
    all_goals rw [← Option.mem_some_iff.mp same]; decide
  obtain ⟨parts, formed, present⟩ := table_exists splitConfig_checked (by rw [slots]; decide) _ own
  refine ⟨parts, present 0 6 rfl, present 1 7 rfl, by decide, by decide, ?_⟩
  have fits : FitsInt64 splitConfig 64 65 := by decide
  exact (@find_any_schedule_iff _ _ 64 _ splitRequest _ firstFound _ splitConfig_checked
    (by decide) formed fun _ => 0).mpr
    (.inr ⟨le_refl 4, fits⟩)

/-- With the largest `max_find_task_size` that `check` accepts, the number of tasks overflows. -/
theorem find_task_count_overflows :
    ∃ parts : Nat → Partition Nat,
      (∀ p, (parts p).WellFormed (floatConfig (2 ^ 63 - 1) unlimited)
        (home (floatConfig (2 ^ 63 - 1) unlimited) (BitVec.ofNat 64)) p) ∧
      (stored (floatConfig (2 ^ 63 - 1) unlimited) (BitVec.ofNat 64) parts 7).isSome ∧
      maskSize 64 65 + (floatConfig (2 ^ 63 - 1) unlimited).maxFindTaskSize - 1 = 2 ^ 63 ∧
      ∀ schedule, find (floatConfig_checked (by decide : 0 < 2 ^ 63 - 1) (by decide) unlimited)
        (by decide : 0 < 64)
        (BitVec.ofNat 64) (repeatRequest 65 7) (fun _ => 0) schedule zeroBuffers parts = none := by
  have slots := floatConfig_slots (2 ^ 63 - 1)
  have own : ∀ p, ∀ key ∈ (if p = 0 then some 7 else none),
      home (floatConfig (2 ^ 63 - 1) unlimited) (BitVec.ofNat 64) key = p := by
    intro p key member
    rw [(Option.mem_ite_none_right.mp member).1]
    exact Nat.lt_one_iff.mp (Partitioner.part_lt _ (by decide : 0 < 1) _)
  obtain ⟨parts, formed, present⟩ := table_exists
    (floatConfig_checked (by decide : 0 < 2 ^ 63 - 1) (by decide) unlimited)
      (by rw [slots]; decide) _ own
  refine ⟨parts, formed, present 0 7 rfl, by decide, ?_⟩
  intro schedule
  have some_keys : 0 < (repeatRequest 65 7).n := Nat.succ_pos 64
  have overflow : ¬ FitsInt64 (floatConfig (2 ^ 63 - 1) unlimited) 64 (repeatRequest 65 7).n := by
    change ¬ FitsInt64 (floatConfig (2 ^ 63 - 1) unlimited) 64 65
    decide
  rw [find, dif_pos some_keys, if_pos (.inr overflow)]

end EmbedCache.STLContainerTable
