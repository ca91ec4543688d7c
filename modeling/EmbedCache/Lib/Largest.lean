import Mathlib.Data.Multiset.Sort
import Mathlib.Data.Multiset.Basic
import Mathlib.Data.Fintype.Basic
import Mathlib.Order.Monotone.Basic
import Mathlib.Tactic

/-! The largest elements of a multiset, and networks that compare and exchange.

A round of a network pairs the lanes; one lane of a pair keeps the larger value and the other
the smaller one. Rounds commute with monotone maps, so a network sorts if it sorts the values
of every threshold (the 0-1 principle). -/

namespace EmbedCache.Lib

open Multiset

variable {α : Type*} [LinearOrder α]

/-! ### Largest elements -/

/-- `chosen` has the `k` largest elements of `all`. -/
structure Largest (k : Nat) (all chosen : Multiset α) : Prop where
  le : chosen ≤ all
  card : chosen.card = k
  above : ∀ a ∈ chosen, ∀ b ∈ all - chosen, b ≤ a

namespace Largest

variable {k : Nat} {all chosen : Multiset α}

theorem refl (all : Multiset α) : Largest all.card all all := by
  refine ⟨le_rfl, rfl, fun a _ b rest => ?_⟩
  rw [tsub_self] at rest
  exact absurd rest (Multiset.notMem_zero b)

theorem unique {other : Multiset α} (one : Largest k all chosen) (two : Largest k all other) :
    chosen = other := by
  have cards : chosen.card = other.card := one.card.trans two.card.symm
  refine eq_of_le_of_card_le ?_ cards.ge
  rw [le_iff_count]
  intro a
  by_contra fewer
  rw [not_le] at fewer
  have here : a ∈ chosen := count_pos.mp (by omega)
  have left : a ∈ all - other := by
    rw [← count_pos, count_sub]
    have := le_iff_count.mp one.le a
    omega
  -- every element of the other choice is at least `a`, so one of them is larger and not chosen
  have more : ∃ b, count b chosen < count b other := by
    by_contra none
    have le : other ≤ chosen := le_iff_count.mpr fun b => not_lt.mp fun extra => none ⟨b, extra⟩
    rw [eq_of_le_of_card_le le cards.le] at fewer
    exact lt_irrefl _ fewer
  obtain ⟨b, extra⟩ := more
  have inOther : b ∈ other := count_pos.mp (by omega)
  have outside : b ∈ all - chosen := by
    rw [← count_pos, count_sub]
    have := le_iff_count.mp two.le b
    omega
  have same : a = b := le_antisymm (two.above b inOther a left) (one.above a here b outside)
  rw [same] at fewer
  omega

/-- The largest elements of what two choices leave are the largest of all. -/
theorem add {first second one two : Multiset α} (left : Largest k first one)
    (right : Largest k second two)
    (best : Largest k (one + two) chosen) : Largest k (first + second) chosen := by
  refine ⟨best.le.trans (add_le_add left.le right.le), best.card, fun a here b rest => ?_⟩
  have split : first + second - chosen = (first - one) + (second - two) + (one + two - chosen) := by
    ext c
    have := le_iff_count.mp left.le c
    have := le_iff_count.mp right.le c
    have := le_iff_count.mp best.le c
    simp only [count_sub, count_add] at *
    omega
  -- an element that a choice has dropped is below that choice, which is not all chosen or is all
  -- that is
  have dropped : ∀ part other : Multiset α, part + other = one + two → part.card = k →
      (∀ c ∈ part, b ≤ c) → b ≤ a := by
    intro part other whole size below
    by_cases all : part ≤ chosen
    · have same : part = chosen := eq_of_le_of_card_le all (by rw [size, best.card])
      exact below a (same ▸ here)
    · simp only [le_iff_count, not_forall, not_le] at all
      obtain ⟨c, missing⟩ := all
      have inPart : c ∈ part := count_pos.mp (by omega)
      have out : c ∈ one + two - chosen := by
        rw [← count_pos, count_sub, ← whole, count_add]
        omega
      exact (below c inPart).trans (best.above a here c out)
  rw [split, mem_add, mem_add] at rest
  rcases rest with (fromFirst | fromSecond) | kept
  · exact dropped one two rfl left.card fun c inside => left.above c inside b fromFirst
  · exact dropped two one (add_comm _ _) right.card fun c inside =>
      right.above c inside b fromSecond
  · exact best.above a here b kept

theorem exists_largest (enough : k ≤ all.card) : ∃ chosen, Largest k all chosen := by
  induction k with
  | zero => exact ⟨0, Multiset.zero_le _, rfl, nofun⟩
  | succ k ih =>
    obtain ⟨chosen, largest⟩ := ih (by omega)
    have more : 0 < (all - chosen).card := by
      rw [Multiset.card_sub largest.le, largest.card]
      omega
    obtain ⟨some, member⟩ := Multiset.card_pos_iff_exists_mem.mp more
    obtain ⟨top, isTop, highest⟩ :=
      (all - chosen).toFinset.exists_max_image id ⟨some, mem_toFinset.mpr member⟩
    rw [mem_toFinset] at isTop
    have shrinks : all - (top ::ₘ chosen) ≤ all - chosen :=
      tsub_le_tsub_left (Multiset.le_cons_self _ _) _
    refine ⟨top ::ₘ chosen, ?_, by rw [Multiset.card_cons, largest.card], fun a here b rest => ?_⟩
    · have single : {top} ≤ all - chosen := Multiset.singleton_le.mpr isTop
      have whole := add_le_add_left single chosen
      rw [tsub_add_cancel_of_le largest.le, Multiset.singleton_add] at whole
      exact whole
    · have outside := mem_of_le shrinks rest
      rcases Multiset.mem_cons.mp here with rfl | old
      · exact highest b (mem_toFinset.mpr outside)
      · exact largest.above a old b outside

/-- Elements below all others do not count when there are enough others. -/
theorem of_add {low : Multiset α} (best : Largest k (low + all) chosen) (enough : k ≤ all.card)
    (below : ∀ b ∈ low, ∀ a ∈ all, b ≤ a) : Largest k all chosen := by
  obtain ⟨top, largest⟩ := exists_largest enough
  have again : Largest k (low + all) top := by
    refine ⟨largest.le.trans (Multiset.le_add_left _ _), largest.card, fun a here b rest => ?_⟩
    rw [add_tsub_assoc_of_le largest.le, mem_add] at rest
    rcases rest with isLow | kept
    · exact below b isLow a (mem_of_le largest.le here)
    · exact largest.above a here b kept
  rw [best.unique again]
  exact largest

end Largest

/-! ### Networks -/

variable {ι : Type*}

def laneValues [Fintype ι] (u : ι → α) : Multiset α := Finset.univ.val.map u

theorem map_max_add_map_min (lanes : Multiset ι) (a b : ι → α) :
    lanes.map a + lanes.map b = (lanes.map fun x => max (a x) (b x)) + lanes.map fun x =>
      min (a x) (b x) := by
  induction lanes using Multiset.induction_on with
  | empty => rfl
  | cons x lanes ih =>
    simp only [Multiset.map_cons, Multiset.cons_add, Multiset.add_cons]
    rcases le_total (a x) (b x) with le | le
    · rw [max_eq_right le, min_eq_left le, ih, Multiset.cons_swap]
    · rw [max_eq_left le, min_eq_right le, ih]

/-- Falling values against rising ones: the larger of each pair are the largest of all. -/
theorem largest_max [Fintype ι] [LinearOrder ι] {a b : ι → α} (falling : Antitone a)
    (rising : Monotone b) :
    Largest (Fintype.card ι) (laneValues a + laneValues b)
      (laneValues fun x => max (a x) (b x)) := by
  have split := map_max_add_map_min Finset.univ.val a b
  refine ⟨?_, by rw [laneValues, Multiset.card_map]; rfl, fun high here low rest => ?_⟩
  · exact le_of_le_of_eq (Multiset.le_add_right _ _) split.symm
  · rw [laneValues, laneValues, split, laneValues, add_tsub_cancel_left] at rest
    obtain ⟨x, _, rfl⟩ := mem_map.mp here
    obtain ⟨y, _, rfl⟩ := mem_map.mp rest
    rcases le_total x y with le | le
    · exact (min_le_left _ _).trans ((falling le).trans (le_max_left _ _))
    · exact (min_le_right _ _).trans ((rising le).trans (le_max_right _ _))

def compareRound (pair : ι → ι) (upper : ι → Bool) (u : ι → α) (x : ι) : α :=
  if upper x then max (u x) (u (pair x)) else min (u x) (u (pair x))

def network (rounds : List ((ι → ι) × (ι → Bool))) (u : ι → α) : ι → α :=
  rounds.foldl (fun u round => compareRound round.1 round.2 u) u

theorem network_comp {β : Type*} [LinearOrder β] {f : α → β} (monotone : Monotone f)
    (rounds : List ((ι → ι) × (ι → Bool)))
    (u : ι → α) : network rounds (fun x => f (u x)) = fun x => f (network rounds u x) := by
  induction rounds generalizing u with
  | nil => rfl
  | cons round rounds ih =>
    have first : compareRound round.1 round.2 (fun x => f (u x)) = fun x =>
        f (compareRound round.1 round.2 u x) := by
      funext x
      unfold compareRound
      split
      · exact monotone.map_max.symm
      · exact monotone.map_min.symm
    change network rounds (compareRound round.1 round.2 fun x => f (u x)) = _
    rw [first]
    exact ih _

variable {rounds : List ((ι → ι) × (ι → Bool))}

/-- The 0-1 principle: a network that sorts every threshold of the values sorts the values. -/
theorem network_antitone [Preorder ι] {u : ι → α}
    (each : ∀ c, Antitone (network rounds fun x => decide (c < u x))) :
    Antitone (network rounds u) := by
  intro x y le
  by_contra wrong
  rw [not_le] at wrong
  have monotone : Monotone fun a => decide (network rounds u x < a) := by
    intro a b small
    by_cases above : network rounds u x < a
    · simp [above, above.trans_le small]
    · simp [above]
  have sorted := each (network rounds u x) le
  rw [network_comp monotone] at sorted
  simp only [lt_irrefl, wrong, decide_true, decide_false] at sorted
  exact absurd sorted (by decide)

theorem laneValues_compareRound [Fintype ι] {pair : ι → ι} (involutive : ∀ x, pair (pair x) = x)
    {upper : ι → Bool}
    (opposite : ∀ x, upper (pair x) = !upper x) (u : ι → α) :
    laneValues (compareRound pair upper u) = laneValues u := by
  let swaps (x : ι) : Prop := if upper x then u x < u (pair x) else u (pair x) < u x
  have agree : ∀ x, swaps (pair x) ↔ swaps x := by
    intro x
    simp only [swaps, opposite, involutive]
    cases upper x <;> simp
  classical
  let move (x : ι) : ι := if swaps x then pair x else x
  have back : Function.Involutive move := by
    intro x
    by_cases swap : swaps x
    · simp only [move, if_pos swap, if_pos ((agree x).mpr swap), involutive]
    · simp only [move, if_neg swap]
  have moved : compareRound pair upper u = fun x => u (move x) := by
    funext x
    simp only [compareRound, move, swaps]
    cases upper x
    · by_cases less : u (pair x) < u x
      · simp [less, less.le]
      · simp [less, not_lt.mp less]
    · by_cases less : u x < u (pair x)
      · simp [less, less.le]
      · simp [less, not_lt.mp less]
  have permuted : (Finset.univ : Finset ι).val.map move = Finset.univ.val :=
    Multiset.map_univ_val_equiv back.toPerm
  rw [moved, laneValues, laneValues]
  conv_rhs => rw [← permuted, Multiset.map_map]
  rfl

theorem laneValues_network [Fintype ι] (involutive : ∀ round ∈ rounds, ∀ x, round.1 (round.1 x) = x)
    (opposite : ∀ round ∈ rounds, ∀ x, round.2 (round.1 x) = !round.2 x) (u : ι → α) :
    laneValues (network rounds u) = laneValues u := by
  induction rounds generalizing u with
  | nil => rfl
  | cons round rounds ih =>
    have rest := ih (fun other member => involutive other (List.mem_cons_of_mem _ member))
      (fun other member => opposite other (List.mem_cons_of_mem _ member))
        (compareRound round.1 round.2 u)
    exact rest.trans (laneValues_compareRound (involutive round List.mem_cons_self)
      (opposite round List.mem_cons_self) u)

end EmbedCache.Lib
