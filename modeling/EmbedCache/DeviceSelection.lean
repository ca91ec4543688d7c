import EmbedCache.LaneNetworks

/-! What the eight lanes of a set select.

If nothing is merged, or if the new keys of the set have different priorities and every
merged location survives its way through a `float`, the writing lanes hold pairwise
different locations of keys that are not in the set, and pairwise different ways to put
them. -/

namespace EmbedCache.SetWork

open Lib

variable {w : Nat} {C : Type*} [Zero C] (work : SetWork w C)

/-- The lane holds the candidate at one of the positions `[start, stop)` of the set's locations. -/
def IsCandidate (start stop : Nat) (value : C × Nat) : Prop :=
  ∃ i, start ≤ i ∧ i < stop ∧ work.locations[i]? = some value.2 ∧ work.isHit value.2 = false ∧
    value.1 = (itemAt work.items value.2).priority

theorem IsCandidate.mono {start stop lower upper : Nat} {value : C × Nat}
    (candidate : work.IsCandidate start stop value) (below : lower ≤ start) (above : stop ≤ upper) :
    work.IsCandidate lower upper value := by
  rcases candidate with ⟨i, first, last, rest⟩
  exact ⟨i, by omega, by omega, rest⟩

theorem IsCandidate.member {start stop : Nat} {value : C × Nat}
    (candidate : work.IsCandidate start stop value) :
    value.2 ∈ work.locations := by
  rcases candidate with ⟨i, _, _, here, _⟩
  exact List.mem_of_getElem? here

variable [LinearOrder C]

/-- The locations behind the first chunk, which is not merged into another, are exact as floats. -/
def ExactLocations : Prop := ∀ loc ∈ work.locations.drop numWays, throughFloat loc = loc

/-- Two keys of the set that are not cached differ in their priority, unless it is zero. -/
def PrioritiesDiffer : Prop :=
  ∀ loc ∈ work.locations, ∀ other ∈ work.locations, work.isHit loc = false →
    work.isHit other = false → 0 < (itemAt work.items loc).priority →
    (itemAt work.items loc).priority = (itemAt work.items other).priority → loc = other

/-- What is asked of a set that is given more keys than it has ways. -/
def Orderly : Prop :=
  work.locations.length ≤ numWays ∨ work.ExactLocations ∧ work.PrioritiesDiffer

instance : Decidable work.ExactLocations := inferInstanceAs (Decidable (∀ _ ∈ _, _))

instance : Decidable work.PrioritiesDiffer := inferInstanceAs (Decidable (∀ _ ∈ _, ∀ _ ∈ _, _))

instance : Decidable work.Orderly := inferInstanceAs (Decidable (_ ∨ _))

theorem loadChunk_candidate (processed : Nat) (x : Lane)
    (positive : Positive (work.loadChunk processed x)) :
    work.IsCandidate processed (processed + numWays) (work.loadChunk processed x) ∧
      work.locations[processed + x.val]? = some (work.loadChunk processed x).2 := by
  cases here : work.locations[processed + x.val]? with
  | none =>
    simp only [loadChunk, here, Positive, lt_irrefl] at positive
  | some loc =>
    by_cases hit : work.isHit loc = true
    · simp only [loadChunk, here, hit, if_true, Positive, lt_irrefl] at positive
    · have value : work.loadChunk processed x = ((itemAt work.items loc).priority, loc) := by
        simp only [loadChunk, here, hit, if_false, Bool.false_eq_true]
      have bound := x.isLt
      rw [value]
      exact ⟨⟨processed + x.val, by omega, by omega, here, by simpa using hit, rfl⟩, rfl⟩

theorem loadChunk_separated (nodup : work.locations.Nodup) (processed : Nat) :
    Separated Positive Prod.snd (work.loadChunk processed) := by
  intro x y first second same
  have left := (work.loadChunk_candidate processed x first).2
  have right := (work.loadChunk_candidate processed y second).2
  have bound : processed + x.val < work.locations.length := (List.getElem?_eq_some_iff.mp left).1
  rw [same, ← right] at left
  have index := (List.getElem?_inj bound nodup).mp left
  exact Fin.ext (by omega)

theorem sortedChunk_candidate (processed : Nat) (x : Lane)
    (positive : Positive (sortBlock (work.loadChunk processed) x)) :
    work.IsCandidate processed (processed + numWays) (sortBlock (work.loadChunk processed) x) :=
  sortBlock_forall (fun value => Positive value →
    work.IsCandidate processed (processed + numWays) value) _
    (fun x positive => (work.loadChunk_candidate processed x positive).1) x positive

theorem Orderly.exactLocations {work : SetWork w C} (orderly : work.Orderly) :
    work.ExactLocations := by
  rcases orderly with few | many
  · rw [ExactLocations, List.drop_eq_nil_of_le few]
    exact nofun
  · exact many.1

section Merges

variable (kept : work.ExactLocations)

include kept

theorem sortedChunk_exact {processed : Nat} (later : numWays ≤ processed) (x : Lane)
    (positive : Positive (sortBlock (work.loadChunk processed) x)) :
    throughFloat (sortBlock (work.loadChunk processed) x).2 =
      (sortBlock (work.loadChunk processed) x).2 := by
  obtain ⟨i, start, _, here, _⟩ := work.sortedChunk_candidate processed x positive
  have behind : (work.locations.drop numWays)[i - numWays]? =
      some (sortBlock (work.loadChunk processed) x).2 := by
    rw [List.getElem?_drop, Nat.add_sub_cancel' (later.trans start), here]
  exact kept _ (List.mem_of_getElem? behind)

theorem mergedChunk_exact (chunk : Nat) (x : Lane)
    (positive : Positive (sortBlock (work.loadChunk ((chunk + 1) * numWays)) x)) :
    throughFloat (sortBlock (work.loadChunk ((chunk + 1) * numWays)) x).2 =
      (sortBlock (work.loadChunk ((chunk + 1) * numWays)) x).2 :=
  work.sortedChunk_exact kept (Nat.le_mul_of_pos_left numWays chunk.succ_pos) x positive

theorem bestAfter_candidate (chunks : Nat) (x : Lane)
    (positive : Positive (work.bestAfter chunks x)) :
    work.IsCandidate 0 ((chunks + 1) * numWays) (work.bestAfter chunks x) := by
  induction chunks generalizing x with
  | zero =>
    have chunk := work.sortedChunk_candidate 0 x positive
    rw [Nat.zero_add] at chunk
    rw [Nat.zero_add, Nat.one_mul]
    exact chunk
  | succ chunks ih =>
    have stop : (chunks + 1) * numWays + numWays = (chunks + 1 + 1) * numWays :=
      (Nat.succ_mul _ _).symm
    apply mergeRounds_forall
      (fun value => Positive value → work.IsCandidate 0 ((chunks + 1 + 1) * numWays) value)
      mergeSchedule _ _ x positive
    intro y better
    rcases mergeStart_origin _ _ (work.mergedChunk_exact kept chunks) y better with
      origin | origin <;> rw [origin] at better ⊢
    · exact (ih y better).mono work (le_refl _) (by omega)
    · exact (work.sortedChunk_candidate _ _ better).mono work (Nat.zero_le _) (by omega)

omit kept [LinearOrder C] in
theorem candidate_locations_ne (nodup : work.locations.Nodup) {middle stop : Nat}
    {first second : C × Nat} (left : work.IsCandidate 0 middle first)
    (right : work.IsCandidate middle stop second) : first.2 ≠ second.2 := by
  intro same
  rcases left with ⟨i, _, below, here, _⟩
  rcases right with ⟨j, above, _, there, _⟩
  have bound : i < work.locations.length := (List.getElem?_eq_some_iff.mp here).1
  rw [same, ← there] at here
  have index := (List.getElem?_inj bound nodup).mp here
  omega

omit kept in
theorem PrioritiesDiffer.location_eq {work : SetWork w C} (distinct : work.PrioritiesDiffer)
    {start stop lower upper : Nat} {first second : C × Nat}
    (left : work.IsCandidate start stop first) (right : work.IsCandidate lower upper second)
    (positive : Positive first) (same : first.1 = second.1) : first.2 = second.2 := by
  rcases left with ⟨i, below, above, here, fresh, value⟩
  rcases right with ⟨j, lowest, highest, there, other, otherValue⟩
  rw [Positive, value] at positive
  exact distinct _ (List.mem_of_getElem? here) _ (List.mem_of_getElem? there) fresh other positive
    (by rw [← value, ← otherValue]; exact same)

/-- The priorities stay apart from chunk to chunk. -/
theorem bestAfter_separated (nodup : work.locations.Nodup) (distinct : work.PrioritiesDiffer)
    (chunks : Nat) : Separated Positive Prod.fst (work.bestAfter chunks) := by
  have inChunk : ∀ processed,
      Separated Positive Prod.fst (sortBlock (work.loadChunk processed)) := by
    intro processed
    refine sortBlock_separated Positive Prod.fst _ fun x y first second same => ?_
    apply work.loadChunk_separated nodup processed x y first second
    exact distinct.location_eq (work.loadChunk_candidate processed x first).1
      (work.loadChunk_candidate processed y second).1 first same
  induction chunks with
  | zero => exact inChunk 0
  | succ chunks ih =>
    refine mergeRounds_separated mergeSchedule (fun _ member => member) _
      (mergeStart_separated _ _ (work.mergedChunk_exact kept chunks) ih (inChunk _) ?_)
    intro x y first second same
    have earlier := work.bestAfter_candidate kept chunks x first
    have later := work.sortedChunk_candidate _ y second
    exact work.candidate_locations_ne nodup earlier later
      (distinct.location_eq earlier later first same)

end Merges

theorem best_separated (nodup : work.locations.Nodup) (orderly : work.Orderly) :
    Separated Positive Prod.snd work.best := by
  rcases orderly with few | ⟨kept, distinct⟩
  · have unmerged : (work.locations.length - 1) / numWays = 0 :=
      Nat.div_eq_of_lt (by simp only [numWays] at few ⊢; omega)
    rw [best, unmerged]
    exact sortBlock_separated Positive Prod.snd _ (work.loadChunk_separated nodup 0)
  · intro x y first second same
    apply work.bestAfter_separated kept nodup distinct _ x y first second
    obtain ⟨_, _, _, _, _, value⟩ := work.bestAfter_candidate kept _ x first
    obtain ⟨_, _, _, _, _, otherValue⟩ := work.bestAfter_candidate kept _ y second
    change (work.best x).1 = _ at value
    change (work.best y).1 = _ at otherValue
    change (work.best x).1 = (work.best y).1
    rw [value, otherValue]
    exact congrArg (fun loc => (itemAt work.items loc).priority) same

section Writers

variable [Add C]

theorem victims_way_lt (x : Lane) : (work.victims x).2 < numWays :=
  sortBlock_forall (fun value => value.2 < numWays) _ (fun x => x.isLt) (reverseLane x)

theorem victims_injective {x y : Lane} (same : (work.victims x).2 = (work.victims y).2) :
    x = y := by
  have separated : Separated (fun _ => True) Prod.snd
      (fun x : Lane => (if work.ways x = work.sentinel then 0 else work.bumped x, x.val)) :=
    fun x y _ _ equal => Fin.ext equal
  exact reverseLane_injective (sortBlock_separated _ _ _ separated _ _ trivial trivial same)

theorem victims_nonneg (counters : ∀ x, 0 ≤ work.bumped x) (x : Lane) : 0 ≤ (work.victims x).1 := by
  refine sortBlock_forall (fun value => 0 ≤ value.1) _ (fun y => ?_) (reverseLane x)
  dsimp only
  split
  · exact le_refl _
  · exact counters y

theorem writers_positive (counters : ∀ x, 0 ≤ work.bumped x) (x : Lane)
    (writes : x ∈ work.writers) :
    Positive (work.best x) := by
  have decision := (List.mem_filter.mp writes).2
  simp only [needToWrite, Bool.and_eq_true, decide_eq_true_eq] at decision
  exact lt_of_le_of_lt (work.victims_nonneg counters x) decision.2

theorem writers_nodup : work.writers.Nodup := (List.nodup_finRange _).filter _

theorem writers_location (kept : work.ExactLocations) (counters : ∀ x, 0 ≤ work.bumped x)
    (x : Lane) (writes : x ∈ work.writers) :
    (work.best x).2 ∈ work.locations ∧ work.isHit (work.best x).2 = false := by
  have candidate := work.bestAfter_candidate kept _ x (work.writers_positive counters x writes)
  refine ⟨candidate.member, ?_⟩
  rcases candidate with ⟨_, _, _, _, fresh, _⟩
  exact fresh

theorem finalCounters_nonneg (counters : ∀ x, 0 ≤ work.bumped x) (way : Lane) :
    0 ≤ work.finalCounters way := by
  have general : ∀ (lanes : List Lane) (counter : C), (∀ x ∈ lanes, x ∈ work.writers) →
      0 ≤ counter →
      0 ≤ lanes.foldl (fun counter x => if (work.victims x).2 = way.val then (work.best x).1
        else counter) counter := by
    intro lanes
    induction lanes with
    | nil => intro counter _ start; exact start
    | cons x rest ih =>
      intro counter inside start
      apply ih _ fun other member => inside other (List.mem_cons_of_mem _ member)
      dsimp only
      split
      · exact le_of_lt (work.writers_positive counters x (inside x List.mem_cons_self))
      · exact start
  exact general work.writers (work.bumped way) (fun _ member => member) (counters way)

end Writers

section Counters

variable [Add C] [Mul C]

/-- What the floating-point counters are used for: sums and products of non-negative values
are not negative. -/
structure CounterLaws (C : Type*) [LinearOrder C] [Zero C] [Add C] [Mul C] : Prop where
  add_nonneg : ∀ a b : C, 0 ≤ a → 0 ≤ b → 0 ≤ a + b
  mul_nonneg : ∀ a b : C, 0 ≤ a → 0 ≤ b → 0 ≤ a * b

theorem bumped_nonneg (laws : CounterLaws C) (counters : ∀ x, 0 ≤ work.counters x)
    (priorities : ∀ loc ∈ work.locations, 0 ≤ (itemAt work.items loc).priority) (x : Lane) :
    0 ≤ work.bumped x := by
  have general : ∀ (locations : List Nat) (counter : C),
      (∀ loc ∈ locations, 0 ≤ (itemAt work.items loc).priority) → 0 ≤ counter →
      0 ≤ locations.foldl (fun counter loc =>
        if work.matchesWay x loc then counter + (itemAt work.items loc).priority else counter)
          counter := by
    intro locations
    induction locations with
    | nil => intro counter _ start; exact start
    | cons loc rest ih =>
      intro counter inside start
      apply ih _ fun other member => inside other (List.mem_cons_of_mem _ member)
      dsimp only
      split
      · exact laws.add_nonneg _ _ start (inside loc List.mem_cons_self)
      · exact start
  exact general work.locations (work.counters x) priorities (counters x)

end Counters

end EmbedCache.SetWork
