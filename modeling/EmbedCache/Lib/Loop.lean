import Mathlib.Tactic

/-! Loops that need not end.

The body says whether the loop goes on or is left. With a number of turns as fuel the
loop is a function; `Leaves` is the statement that some number of turns is enough. -/

namespace EmbedCache.Lib

variable {σ α : Type*}

inductive Turn (σ α : Type*)
  | again (state : σ)
  | leave (result : α)

def loop (body : σ → Turn σ α) : Nat → σ → Option α
  | 0, _ => none
  | fuel + 1, state =>
    match body state with
    | .again next => loop body fuel next
    | .leave result => some result

inductive Leaves (body : σ → Turn σ α) : σ → α → Prop
  | now {state : σ} {result : α} (left : body state = .leave result) : Leaves body state result
  | later {state next : σ} {result : α} (goes : body state = .again next)
    (rest : Leaves body next result) :
      Leaves body state result

variable {body : σ → Turn σ α} {state : σ}

theorem loop_leaves {fuel : Nat} {result : α}
    (ended : loop body fuel state = some result) : Leaves body state result := by
  induction fuel generalizing state with
  | zero => exact absurd ended (by simp [loop])
  | succ fuel ih =>
    unfold loop at ended
    split at ended
    · rename_i next goes
      exact .later goes (ih ended)
    · rename_i last left
      rw [Option.some.injEq] at ended
      exact .now (ended ▸ left)

theorem Leaves.exists_fuel {result : α} (leaves : Leaves body state result) :
    ∃ fuel, loop body fuel state = some result := by
  induction leaves with
  | now left => exact ⟨1, by simp only [loop, left]⟩
  | later goes _ ih =>
    obtain ⟨fuel, ended⟩ := ih
    exact ⟨fuel + 1, by simp only [loop, goes, ended]⟩

theorem Leaves.unique {first second : α} (one : Leaves body state first)
    (two : Leaves body state second) : first = second := by
  induction one with
  | now left =>
    cases two with
    | now again => rw [left] at again; exact Turn.leave.inj again
    | later goes _ => rw [left] at goes; cases goes
  | later goes _ ih =>
    cases two with
    | now left => rw [goes] at left; cases left
    | later again rest =>
      rw [goes] at again
      cases again
      exact ih rest

theorem loop_mono {fuel more : Nat} (le : fuel ≤ more) {result : α}
    (ended : loop body fuel state = some result) : loop body more state = some result := by
  induction fuel generalizing more state with
  | zero => exact absurd ended (by simp [loop])
  | succ fuel ih =>
    obtain ⟨more, rfl⟩ := Nat.exists_eq_add_of_le' (Nat.one_le_of_lt le)
    unfold loop at ended ⊢
    split at ended
    · exact ih (Nat.le_of_succ_le_succ le) ended
    · exact ended

end EmbedCache.Lib
