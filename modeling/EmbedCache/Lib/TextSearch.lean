import Mathlib.Tactic
import Mathlib.Data.List.Basic

/-! Searches in texts: the leftmost place at which a pattern matches, what it captures there, and
the pieces of a text between separators. -/

namespace EmbedCache.Lib.TextSearch

open List

variable {α γ : Type*}

def search (matcher : List γ → Option α) : List γ → Option α
  | [] => matcher []
  | letter :: rest => (matcher (letter :: rest)).or (search matcher rest)

variable {matcher : List γ → Option α} {text : List γ} {result : α}

theorem exists_of_search (found : search matcher text = some result) :
    ∃ before rest, text = before ++ rest ∧ matcher rest = some result := by
  induction text with
  | nil => exact ⟨[], [], rfl, found⟩
  | cons letter text ih =>
    cases here : matcher (letter :: text) with
    | some other =>
      rw [search, here, Option.some_or] at found
      exact ⟨[], letter :: text, rfl, found ▸ here⟩
    | none =>
      rw [search, here, Option.none_or] at found
      obtain ⟨before, rest, whole, hit⟩ := ih found
      exact ⟨letter :: before, rest, by rw [whole, cons_append], hit⟩

theorem cut_unique {letter : γ} {before after left right : List γ}
    (whole : before ++ letter :: after = left ++ letter :: right)
    (early : letter ∉ left) (late : letter ∉ right) : before = left ∧ after = right := by
  induction before generalizing left with
  | nil =>
    cases left with
    | nil => exact ⟨rfl, (List.cons.inj whole).2⟩
    | cons first left =>
      have same := (List.cons.inj whole).1
      exact absurd (same ▸ mem_cons_self) early
  | cons first before ih =>
    cases left with
    | nil =>
      have tail := (List.cons.inj whole).2
      exact absurd (tail ▸ mem_append_right before mem_cons_self) late
    | cons other left =>
      obtain ⟨rfl, tail⟩ := List.cons.inj whole
      obtain ⟨rfl, rfl⟩ := ih tail fun member => early (mem_cons_of_mem _ member)
      exact ⟨rfl, rfl⟩

variable [DecidableEq γ]

/-- The text in front of the first `stop`, if there is one. -/
def upTo (stop : γ) : List γ → Option (List γ)
  | [] => none
  | letter :: rest => if letter = stop then some [] else (upTo stop rest).map (letter :: ·)

theorem upTo_append {stop : γ} {captured : List γ} (absent : stop ∉ captured) (rest : List γ) :
    upTo stop (captured ++ stop :: rest) = some captured := by
  induction captured with
  | nil => exact if_pos rfl
  | cons letter captured ih =>
    have other : letter ≠ stop := fun same => absent (same ▸ mem_cons_self)
    have tail := ih fun member => absent (mem_cons_of_mem _ member)
    rw [cons_append, upTo, if_neg other, tail, Option.map_some]

theorem exists_of_upTo {stop : γ} {captured : List γ} (taken : upTo stop text = some captured) :
    stop ∉ captured ∧ ∃ rest, text = captured ++ stop :: rest := by
  induction text generalizing captured with
  | nil => cases taken
  | cons letter text ih =>
    by_cases here : letter = stop
    · rw [upTo, if_pos here] at taken
      cases taken
      exact ⟨nofun, text, by rw [here, nil_append]⟩
    · rw [upTo, if_neg here] at taken
      obtain ⟨shorter, found, rfl⟩ := Option.map_eq_some_iff.mp taken
      obtain ⟨absent, rest, rfl⟩ := ih found
      refine ⟨fun member => ?_, rest, rfl⟩
      cases member with
      | head => exact here rfl
      | tail _ member => exact absent member

/-- A literal, then a text that ends at the first `stop`. -/
def captureUntil (literal : List γ) (stop : γ) (text : List γ) : Option (List γ) :=
  (text.dropPrefix? literal).bind (upTo stop)

theorem exists_of_dropPrefix {literal rest : List γ}
    (dropped : text.dropPrefix? literal = some rest) :
    text = literal ++ rest := by
  obtain ⟨front, whole, same⟩ := List.dropPrefix?_eq_some_iff.mp dropped
  rw [whole, beq_iff_eq.mp same]

theorem exists_of_captureUntil {literal captured : List γ} {stop : γ}
    (taken : captureUntil literal stop text = some captured) :
    stop ∉ captured ∧ ∃ rest, text = literal ++ (captured ++ stop :: rest) := by
  obtain ⟨behind, dropped, found⟩ := Option.bind_eq_some_iff.mp taken
  obtain ⟨absent, rest, rfl⟩ := exists_of_upTo found
  exact ⟨absent, rest, exists_of_dropPrefix dropped⟩

/-- The pieces between the separators, as a loop over `getline` takes them: a text that ends with a
separator has no empty piece behind it. -/
def pieces (separator : γ) : List γ → List (List γ)
  | [] => []
  | letter :: rest =>
    if letter = separator then [] :: pieces separator rest
    else
      match pieces separator rest with
      | [] => [[letter]]
      | piece :: others => (letter :: piece) :: others

variable {separator : γ} {piece : List γ}

theorem pieces_append_cons (absent : separator ∉ piece) (rest : List γ) :
    pieces separator (piece ++ separator :: rest) = piece :: pieces separator rest := by
  induction piece with
  | nil => exact if_pos rfl
  | cons letter piece ih =>
    have other : letter ≠ separator := fun same => absent (same ▸ mem_cons_self)
    have tail := ih fun member => absent (mem_cons_of_mem _ member)
    rw [cons_append, pieces, if_neg other, tail]

theorem pieces_of_notMem (absent : separator ∉ piece) (some : piece ≠ []) :
    pieces separator piece = [piece] := by
  induction piece with
  | nil => exact absurd rfl some
  | cons letter piece ih =>
    have other : letter ≠ separator := fun same => absent (same ▸ mem_cons_self)
    rw [pieces, if_neg other]
    cases piece with
    | nil => rfl
    | cons next piece =>
      have tail := ih (fun member => absent (mem_cons_of_mem _ member)) (cons_ne_nil _ _)
      rw [tail]

omit [DecidableEq γ] in
theorem intercalate_append_cons (front : List (List γ)) (piece : List γ) (back : List (List γ)) :
    [separator].intercalate (front ++ piece :: back) =
      front.flatMap (· ++ [separator]) ++ piece ++ back.flatMap (separator :: ·) := by
  induction front with
  | nil =>
    induction back generalizing piece with
    | nil => simp [List.intercalate]
    | cons next back ih =>
      have tail := ih next
      simp only [List.intercalate, nil_append, intersperse_cons_cons, flatten_cons, flatMap_nil,
        flatMap_cons] at tail ⊢
      rw [tail, cons_append, cons_append, nil_append]
  | cons first front ih =>
    have step : [separator].intercalate (first :: (front ++ piece :: back)) =
        first ++ separator :: [separator].intercalate (front ++ piece :: back) := by
      cases front <;> simp [List.intercalate]
    rw [cons_append, step, ih, flatMap_cons]
    simp only [append_assoc, cons_append, nil_append]

end EmbedCache.Lib.TextSearch
