import Mathlib.Data.Fintype.Basic
import Mathlib.Tactic

/-! Exchange networks on lanes.

In one round every lane looks at its partner and either keeps its value or takes
the partner's. The lanes decide separately: values are permuted when partners agree,
and one value is duplicated when they do not. -/

namespace EmbedCache.Lib

variable {ι α β : Type*}

/-- One round: lane `x` takes the value of `pair x` when `swap x` says so. -/
def exchange (pair : ι → ι) (swap : ι → Bool) (v : ι → α) (x : ι) : α :=
  if swap x then v (pair x) else v x

/-- Among the lanes with property `P`, the label tells the lanes apart. -/
def Separated (P : α → Prop) (label : α → β) (v : ι → α) : Prop :=
  ∀ x y, P (v x) → P (v y) → label (v x) = label (v y) → x = y

theorem exchange_forall (pair : ι → ι) (swap : ι → Bool) (v : ι → α) (Q : α → Prop)
    (all : ∀ x, Q (v x)) (x : ι) : Q (exchange pair swap v x) := by
  unfold exchange
  split
  · exact all (pair x)
  · exact all x

theorem Separated.exchange {P : α → Prop} {label : α → β} {v : ι → α}
    (separated : Separated P label v)
    (pair : ι → ι) (involutive : ∀ x, pair (pair x) = x) (swap : ι → Bool)
    (agree : ∀ x, P (v x) → swap (pair x) = swap x) : Separated P label (exchange pair swap v) := by
  -- the lanes the two values come from coincide; a disagreement would need a lane with the property
  have mixed : ∀ x y, swap x = true → swap y = false → P (v y) → pair x ≠ y := by
    intro x y taken kept holds same
    have partner : pair y = x := by rw [← same, involutive]
    have decision := agree y holds
    rw [partner, taken, kept] at decision
    exact absurd decision (by decide)
  intro x y first second same
  unfold EmbedCache.Lib.exchange at first second same
  cases left : swap x <;> cases right : swap y <;> simp only [left, right, if_true, if_false,
    Bool.false_eq_true] at first second same
  · exact separated x y first second same
  · have origin := separated x (pair y) first second same
    exact absurd origin.symm (mixed y x right left first)
  · have origin := separated (pair x) y first second same
    exact absurd origin (mixed x y left right second)
  · have origin := separated (pair x) (pair y) first second same
    rw [← involutive x, origin, involutive]

end EmbedCache.Lib
