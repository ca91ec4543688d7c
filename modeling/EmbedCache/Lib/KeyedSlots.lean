import Mathlib.Data.List.Nodup
import Mathlib.Logic.Basic
import Mathlib.Tactic

/-! Storage slots that each hold at most one key together with a row.

The store is a partial map from keys to rows as soon as no key is held twice.
`Backed` relates that map to a record of the row each key is supposed to have. -/

namespace EmbedCache.Lib

variable {σ κ ρ : Type*}

structure KeyedSlots (σ κ ρ : Type*) where
  held : σ → Option κ
  row : σ → ρ

namespace KeyedSlots

variable (store : KeyedSlots σ κ ρ)

def Distinct : Prop :=
  ∀ first second key, store.held first = some key → store.held second = some key → first = second

def Resident (key : κ) : Prop := ∃ slot, store.held slot = some key

def Backed (given : κ → Option ρ) : Prop :=
  ∀ slot key, store.held slot = some key → given key = some (store.row slot)

def Placed (before after : KeyedSlots σ κ ρ) (key : κ) : Prop :=
  ∃ slot, after.held slot = some key ∧ before.held slot ≠ some key

open Classical in
noncomputable def toMap (store : KeyedSlots σ κ ρ) (key : κ) : Option ρ :=
  if resident : store.Resident key then some (store.row resident.choose) else none

theorem toMap_of_held (distinct : store.Distinct) (slot : σ) (key : κ)
    (held : store.held slot = some key) :
    store.toMap key = some (store.row slot) := by
  have resident : store.Resident key := ⟨slot, held⟩
  rw [toMap, dif_pos resident, distinct _ slot key resident.choose_spec held]

theorem toMap_of_not_resident (key : κ) (absent : ¬ store.Resident key) :
    store.toMap key = none := by
  rw [toMap, dif_neg absent]

variable {before after : KeyedSlots σ κ ρ}

open Classical in
theorem Distinct.shrink (distinct : before.Distinct)
    (shrinks : ∀ slot key, after.held slot = some key → before.held slot = some key) :
    after.Distinct := by
  intro first second key left right
  exact distinct first second key (shrinks first key left) (shrinks second key right)

theorem Distinct.replace (distinct : before.Distinct)
    (slot : σ) (key : κ) (absent : ¬ before.Resident key) (taken : after.held slot = some key)
    (frame : ∀ other, other ≠ slot → after.held other = before.held other) : after.Distinct := by
  have moved : ∀ other found, other ≠ slot → after.held other = some found →
      before.held other = some found ∧ found ≠ key := by
    intro other found apart held
    rw [frame other apart] at held
    exact ⟨held, fun same => absent ⟨other, same ▸ held⟩⟩
  intro first second found left right
  by_cases here : first = slot <;> by_cases there : second = slot
  · rw [here, there]
  · subst here
    have same : key = found := Option.some.inj (taken.symm.trans left)
    exact absurd same.symm (moved second found there right).2
  · subst there
    have same : key = found := Option.some.inj (taken.symm.trans right)
    exact absurd same.symm (moved first found here left).2
  · exact distinct first second found (moved first found here left).1
      (moved second found there right).1

theorem Distinct.placeMany (distinct : before.Distinct) (plan : List (σ × κ))
    (keys : (plan.map Prod.snd).Nodup) (absent : ∀ placed ∈ plan, ¬ before.Resident placed.2)
    (change : ∀ slot, (∃ placed ∈ plan, placed.1 = slot ∧ after.held slot = some placed.2) ∨
      after.held slot = before.held slot) : after.Distinct := by
  intro first second key left right
  rcases change first with ⟨one, planned, slot, taken⟩ | same
  · have oneKey : one.2 = key := Option.some.inj (taken.symm.trans left)
    rcases change second with ⟨two, otherPlanned, otherSlot, otherTaken⟩ | otherSame
    · have twoKey : two.2 = key := Option.some.inj (otherTaken.symm.trans right)
      have equal := List.inj_on_of_nodup_map keys planned otherPlanned (oneKey.trans twoKey.symm)
      rw [← slot, ← otherSlot, equal]
    · exact absurd ⟨second, by rw [oneKey, ← otherSame]; exact right⟩ (absent one planned)
  · rcases change second with ⟨two, otherPlanned, otherSlot, otherTaken⟩ | otherSame
    · have twoKey : two.2 = key := Option.some.inj (otherTaken.symm.trans right)
      exact absurd ⟨first, by rw [twoKey, ← same]; exact left⟩ (absent two otherPlanned)
    · exact distinct first second key (same ▸ left) (otherSame ▸ right)

/-- A batch that leaves a slot alone, empties it, or fills it with a newly placed key
and the row newly recorded for that key keeps the record of the rows. -/
theorem Backed.install {given renewed : κ → Option ρ}
    (backed : before.Backed given) (distinct : after.Distinct)
    (kept : ∀ key, after.Resident key → ¬ Placed before after key → renewed key = given key)
    (change : ∀ slot, after.held slot = before.held slot ∧ after.row slot = before.row slot ∨
      after.held slot = none ∨
      ∃ key, after.held slot = some key ∧ renewed key = some (after.row slot)) :
    after.Backed renewed := by
  intro slot key held
  rcases change slot with ⟨sameHeld, sameRow⟩ | empty | ⟨placed, nowHeld, row⟩
  · have stays : ¬ Placed before after key := by
      rintro ⟨other, otherHeld, fresh⟩
      have same := distinct other slot key otherHeld held
      rw [same, ← sameHeld] at fresh
      exact fresh held
    rw [kept key ⟨slot, held⟩ stays, sameRow]
    exact backed slot key (sameHeld ▸ held)
  · rw [empty] at held
    exact absurd held (by simp)
  · have same : placed = key := Option.some.inj (nowHeld.symm.trans held)
    exact same ▸ row

end KeyedSlots

end EmbedCache.Lib
