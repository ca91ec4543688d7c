import EmbedCache.TopEight

/-! Which candidates `SetReplaceDataKernel` puts into a set.

The lanes offer the best candidates in falling order to the ways in rising order of their
counters, and a lane writes if its candidate is better. The counters are then the eight largest
of the old counters and the new priorities. The positions are right if nothing is merged, or
if the new keys have different priorities and their positions are exact as floats. -/

namespace EmbedCache.SetWork

open Lib Multiset

variable {w : Nat} {C : Type*} [LinearOrder C] [Zero C] [Add C] (work : SetWork w C)

/-- The counter of a way after the hits; an empty way counts as zero. -/
def standing (x : Lane) : C := if work.ways x = work.sentinel then 0 else work.bumped x

def Filled (way : Lane) : Prop := ∃ x ∈ work.writers, (work.victims x).2 = way.val

instance (way : Lane) : Decidable (work.Filled way) :=
  inferInstanceAs (Decidable (∃ x ∈ work.writers, _))

def countersAfter (way : Lane) : C :=
  if work.ways way = work.sentinel ∧ ¬ work.Filled way then 0 else work.finalCounters way

def offered (x : Lane) : Lane := ⟨(work.victims x).2, work.victims_way_lt x⟩

theorem offered_bijective : Function.Bijective work.offered := by
  refine Function.Injective.bijective_of_finite fun x y same => ?_
  exact work.victims_injective (congrArg Fin.val same)

theorem victims_standing (x : Lane) : (work.victims x).1 = work.standing (work.offered x) := by
  have origin : ∃ y : Lane, work.victims x = (work.standing y, y.val) :=
    sortBlock_forall (fun value => ∃ y : Lane, value = (work.standing y, y.val)) _
      (fun y => ⟨y, rfl⟩) (reverseLane x)
  obtain ⟨y, same⟩ := origin
  have way : work.offered x = y := Fin.ext (congrArg Prod.snd same)
  rw [way, same]

theorem values_victims :
    values work.victims = fun x =>
      values (sortBlock fun y => (work.standing y, y.val)) (reverseLane x) := rfl

theorem victims_monotone : Monotone (values work.victims) := by
  rw [values_victims]
  intro x y le
  have sorted := values_sortBlock_antitone fun y => (work.standing y, y.val)
  exact sorted (reverseLane_antitone le)

theorem laneValues_victims : laneValues (values work.victims) = laneValues work.standing := by
  rw [values_victims, laneValues_reverseLane (values (sortBlock fun y => (work.standing y, y.val))),
    laneValues_sortBlock]
  rfl

/-! ### Lanes without a candidate -/

variable {x : Lane}

omit [LinearOrder C] [Add C] in
theorem loadChunk_first (beyond : work.locations.length ≤ x.val) :
    values (work.loadChunk 0) x = 0 := by
  have missing : work.locations[0 + x.val]? = none := List.getElem?_eq_none (by omega)
  simp only [values_loadChunk, loaded, missing]

omit [Add C] in
/-- Lanes behind the last candidate have nothing to offer. -/
theorem best_le_zero (beyond : work.locations.length ≤ x.val) : values work.best x ≤ 0 := by
  have few : (work.locations.length - 1) / numWays = 0 := by
    have := x.isLt
    exact Nat.div_eq_of_lt (by omega)
  have isFirst : work.best = sortBlock (work.loadChunk 0) := by rw [best, few, bestAfter]
  by_contra positive
  rw [not_le] at positive
  -- the lanes up to `x` are positive, more than there are candidates
  have sorted : Finset.Iic x ⊆ Finset.univ.filter fun y => 0 < values work.best y := by
    intro y member
    rw [Finset.mem_filter]
    refine ⟨Finset.mem_univ y, positive.trans_le ?_⟩
    rw [isFirst]
    exact values_sortBlock_antitone _ (Finset.mem_Iic.mp member)
  have same : (Finset.univ.filter fun y => 0 < values work.best y).card =
      (Finset.univ.filter fun y => 0 < values (work.loadChunk 0) y).card := by
    have counts := congrArg (Multiset.countP (0 < ·)) (laneValues_sortBlock (work.loadChunk 0))
    rw [laneValues, laneValues, countP_map, countP_map] at counts
    rw [isFirst]
    exact counts
  have candidates : (Finset.univ.filter fun y => 0 < values (work.loadChunk 0) y) ⊆
      Finset.univ.filter fun y : Lane => y.val < work.locations.length := by
    intro y member
    rw [Finset.mem_filter] at member ⊢
    refine ⟨member.1, ?_⟩
    by_contra outside
    rw [work.loadChunk_first (not_lt.mp outside)] at member
    exact lt_irrefl _ member.2
  have low : (Finset.Iic x).card = x.val + 1 := Fin.card_Iic x
  have high : (Finset.univ.filter fun y : Lane => y.val < work.locations.length).card ≤
      work.locations.length := by
    rw [Fin.card_filter_val_lt]
    exact min_le_right _ _
  have := Finset.card_le_card sorted
  have := Finset.card_le_card candidates
  omega

/-! ### Counters after the call -/

theorem mem_writers : x ∈ work.writers ↔ x.val < work.locations.length ∧
    values work.victims x < values work.best x := by
  have inside : x.val < numWays := x.isLt
  simp only [writers, List.mem_filter, List.mem_finRange, true_and, needToWrite, Bool.and_eq_true,
    decide_eq_true_eq, lt_min_iff, inside,
    values]

theorem filled_offered : work.Filled (work.offered x) ↔ x ∈ work.writers := by
  constructor
  · intro filled
    obtain ⟨y, writes, same⟩ := filled
    rw [← work.victims_injective same]
    exact writes
  · intro writes
    exact ⟨x, writes, rfl⟩

theorem finalCounters_offered (x : Lane) :
    work.finalCounters (work.offered x) = if x ∈ work.writers then (work.best x).1
      else work.bumped (work.offered x) := by
  have general : ∀ (lanes : List Lane) (counter : C),
      lanes.foldl (fun counter y => if (work.victims y).2 = (work.offered x).val then
        (work.best y).1
        else counter) counter =
        if x ∈ lanes then (work.best x).1 else counter := by
    intro lanes
    induction lanes with
    | nil => intro counter; rfl
    | cons y lanes ih =>
      intro counter
      rw [List.foldl_cons, ih]
      by_cases same : (work.victims y).2 = (work.offered x).val
      · have here : y = x := work.victims_injective same
        rw [if_pos same, here, if_pos List.mem_cons_self, ite_self]
      · have other : x ≠ y := fun here =>
          same (congrArg (fun lane => (work.victims lane).2) here.symm)
        simp only [if_neg same, List.mem_cons, other, false_or]
  exact general work.writers _

/-- Each way ends with the better of its counter and the candidate that it is offered to. -/
theorem countersAfter_offered (counters : ∀ x, 0 ≤ work.bumped x) (x : Lane) :
    work.countersAfter (work.offered x) = max (values work.best x) (values work.victims x) := by
  rw [countersAfter, finalCounters_offered]
  by_cases writes : x ∈ work.writers
  · have better := (work.mem_writers.mp writes).2
    rw [if_neg fun still => still.2 (work.filled_offered.mpr writes), if_pos writes,
      max_eq_left better.le]
    rfl
  · have worse : values work.best x ≤ values work.victims x := by
      by_cases inside : x.val < work.locations.length
      · exact not_lt.mp fun better => writes (work.mem_writers.mpr ⟨inside, better⟩)
      · exact (work.best_le_zero (not_lt.mp inside)).trans (work.victims_nonneg counters x)
    have seen : values work.victims x = work.standing (work.offered x) := work.victims_standing x
    rw [if_neg writes, max_eq_right worse, seen, standing]
    simp only [work.filled_offered, writes, not_false_eq_true, and_true]

theorem laneValues_offered (f : Lane → C) :
    laneValues (fun x => f (work.offered x)) = laneValues f := by
  have permuted : (Finset.univ : Finset Lane).val.map work.offered = Finset.univ.val :=
    map_univ_val_equiv (Equiv.ofBijective _ work.offered_bijective)
  rw [laneValues, laneValues]
  conv_rhs => rw [← permuted, map_map]
  rfl

theorem standing_nonneg (counters : ∀ x, 0 ≤ work.bumped x) (x : Lane) : 0 ≤ work.standing x := by
  rw [standing]
  split
  · exact le_rfl
  · exact counters x

omit [Add C] in
theorem newPriorities_nonneg
    (priorities : ∀ loc ∈ work.locations, 0 ≤ (itemAt work.items loc).priority) :
    ∀ priority ∈ work.newPriorities, 0 ≤ priority := by
  intro priority member
  obtain ⟨loc, new, rfl⟩ := List.mem_map.mp (mem_coe.mp member)
  exact priorities loc (List.mem_of_mem_filter new)

omit [LinearOrder C] [Zero C] [Add C] in
theorem card_laneValues (f : Lane → C) : (laneValues f).card = numWays := by
  rw [laneValues, card_map]
  rfl

/-- The counters afterwards are the eight largest of the old ones and the new priorities. -/
theorem countersAfter_largest (counters : ∀ x, 0 ≤ work.bumped x)
    (priorities : ∀ loc ∈ work.locations, 0 ≤ (itemAt work.items loc).priority) :
    Largest numWays (laneValues work.standing + work.newPriorities)
      (laneValues work.countersAfter) := by
  have offers : laneValues work.countersAfter = laneValues fun x =>
      max (values work.best x) (values work.victims x) := by
    rw [← work.laneValues_offered, funext (work.countersAfter_offered counters)]
  have taken :=
    largest_max (work.bestAfter_antitone ((work.locations.length - 1) / numWays))
      work.victims_monotone
  rw [laneValues_victims, Fintype.card_fin] at taken
  have old := Largest.refl (laneValues work.standing)
  rw [card_laneValues] at old
  have all := (work.bestAfter_largest ((work.locations.length - 1) / numWays)).add old taken
  have enough : work.locations.length ≤ ((work.locations.length - 1) / numWays + 1) * numWays := by
    have split := Nat.div_add_mod (work.locations.length - 1) numWays
    have := Nat.mod_lt (work.locations.length - 1) (show 0 < numWays by decide)
    rw [Nat.mul_comm, Nat.mul_add]
    omega
  obtain ⟨zeros, zero, whole⟩ := work.exists_zeros enough
  rw [sum_chunks, whole, add_assoc, add_comm work.newPriorities] at all
  rw [offers]
  refine all.of_add ?_ fun low isZero a member => ?_
  · rw [card_add, card_laneValues]
    omega
  · rw [zero low isZero]
    rcases mem_add.mp member with isOld | isNew
    · obtain ⟨x, _, rfl⟩ := mem_map.mp isOld
      exact work.standing_nonneg counters x
    · exact work.newPriorities_nonneg priorities a isNew

theorem countersAfter_eq_finalCounters
    (empty : ∀ way, work.ways way = work.sentinel → work.bumped way = 0) :
    work.countersAfter = work.finalCounters := by
  funext way
  obtain ⟨x, rfl⟩ := work.offered_bijective.surjective way
  rw [countersAfter]
  split
  · next still =>
      rw [finalCounters_offered, if_neg fun writes => still.2 (work.filled_offered.mpr writes),
        empty _ still.1]
  · rfl

/-! ### Entries -/

def source (x : Lane) : BitVec w := (itemAt work.items (work.best x).2).key

def candidates : List (BitVec w) := work.locations.map fun loc => (itemAt work.items loc).key

/-- The entries of a set bring in candidates that are not resident, each of them once and to a
way of its own, and leave the eight largest counters. -/
structure KeepsBest : Prop where
  offered : ∀ x ∈ work.writers, work.source x ∈ work.candidates
  sources : (work.writers.map work.source).Nodup
  ways : ∀ base width, ((work.writers.map (work.entry base width)).map ModifyEntry.way).Nodup
  fresh : ∀ x ∈ work.writers, ∀ way, constructKey (work.ways way) work.set work.numSets ≠
    work.source x
  counters : Largest numWays (laneValues work.standing + work.newPriorities)
    (laneValues work.countersAfter)
  stored : (∀ way, work.ways way = work.sentinel → work.bumped way = 0) →
    Largest numWays (laneValues work.standing + work.newPriorities) (laneValues work.finalCounters)

theorem sources_nodup (bumped : ∀ x, 0 ≤ work.bumped x) (distinct : work.candidates.Nodup)
    (orderly : work.Orderly) : (work.writers.map work.source).Nodup := by
  refine work.writers_nodup.map_on fun x first y second same => ?_
  have one := (work.writers_location orderly.exactLocations bumped x first).1
  have two := (work.writers_location orderly.exactLocations bumped y second).1
  have location : (work.best x).2 = (work.best y).2 :=
    List.inj_on_of_nodup_map distinct one two same
  exact work.best_separated distinct.of_map orderly x y (work.writers_positive bumped x first)
    (work.writers_positive bumped y second) location

/-- An empty set that is given the keys `0, 1, …` with these priorities. -/
def emptySet (priorities : List Nat) : SetWork 8 Nat :=
  { numSets := 1, set := 0, sentinel := 255, ways := fun _ => 255, counters := fun _ => 0
    items := priorities.zipIdx.map fun item => ⟨BitVec.ofNat 8 item.2, item.1, fun _ => 0⟩
    locations := List.range priorities.length }

end EmbedCache.SetWork
