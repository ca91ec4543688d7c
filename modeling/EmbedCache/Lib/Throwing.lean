import Mathlib.Tactic

/-! Computations that may throw, with rules of pre- and postconditions.

What a computation has done to the state before it throws stays done. -/

namespace EmbedCache.Lib

/-- A computation on states `σ` that returns an `α` or throws an `ε`. -/
def Throwing (σ ε α : Type) : Type := σ → Except ε α × σ

namespace Throwing

variable {σ ε α β : Type}

instance : Monad (Throwing σ ε) where
  pure value := fun state => (.ok value, state)
  bind first second := fun state =>
    match first state with
    | (.ok value, after) => second value after
    | (.error thrown, after) => (.error thrown, after)

def throw (error : ε) : Throwing σ ε α := fun state => (.error error, state)

def get : Throwing σ ε σ := fun state => (.ok state, state)

def modify (change : σ → σ) : Throwing σ ε Unit := fun state => (.ok (), change state)

def require (condition : Bool) (error : ε) : Throwing σ ε Unit :=
  if condition then pure () else throw error

def demand (value : Option α) (error : ε) : Throwing σ ε α :=
  match value with
  | some value => pure value
  | none => throw error

def forEach (body : Nat → β → Throwing σ ε Unit) : Nat → List β → Throwing σ ε Unit
  | _, [] => pure ()
  | index, element :: rest => do
      body index element
      forEach body (index + 1) rest

variable {second : α → Throwing σ ε β} {state after : σ} {first : Throwing σ ε α}

theorem bind_of_ok {value : α} (run : first state = (.ok value, after)) :
    (first >>= second) state = second value after := by
  simp only [bind, run]

variable {error : ε}

theorem bind_of_error (run : first state = (.error error, after)) :
    (first >>= second) state = (.error error, after) := by
  simp only [bind, run]

/-- From a state with the precondition, `prog` returns with `post` or throws with `thrown`. -/
def Triple (pre : σ → Prop) (prog : Throwing σ ε α) (post : α → σ → Prop) (thrown : ε → σ → Prop) :
    Prop :=
  ∀ state, pre state →
    match prog state with
    | (.ok value, after) => post value after
    | (.error error, after) => thrown error after

variable {pre : σ → Prop} {post : α → σ → Prop} {thrown : ε → σ → Prop}

namespace Triple

variable {prog : Throwing σ ε α}

theorem returned (triple : Triple pre prog post thrown) {value : α} (before : pre state)
    (run : prog state = (.ok value, after)) : post value after := by
  have result := triple state before
  rw [run] at result
  exact result

theorem threw (triple : Triple pre prog post thrown) (before : pre state)
    (run : prog state = (.error error, after)) :
    thrown error after := by
  have result := triple state before
  rw [run] at result
  exact result

variable {thrown' : ε → σ → Prop}

theorem weaken {pre' : σ → Prop} {post' : α → σ → Prop} (triple : Triple pre prog post thrown)
    (strengthen : ∀ state, pre' state → pre state)
    (onReturn : ∀ value state, post value state → post' value state)
    (onThrow : ∀ error state, thrown error state → thrown' error state) :
      Triple pre' prog post' thrown' := by
  intro state before
  have result := triple state (strengthen state before)
  split
  · rename_i value after run
    rw [run] at result
    exact onReturn value after result
  · rename_i error after run
    rw [run] at result
    exact onThrow error after result

theorem mono {post' : α → σ → Prop} (triple : Triple pre prog post thrown)
    (onReturn : ∀ value state, post value state → post' value state)
    (onThrow : ∀ error state, thrown error state → thrown' error state) :
      Triple pre prog post' thrown' :=
  triple.weaken (fun _ before => before) onReturn onThrow

theorem rethrow (triple : Triple pre prog post thrown)
    (onThrow : ∀ error state, thrown error state → thrown' error state) :
      Triple pre prog post thrown' :=
  triple.mono (fun _ _ result => result) onThrow

theorem bind {m : α → σ → Prop} {post : β → σ → Prop} (one : Triple pre first m thrown)
    (two : ∀ value, Triple (m value) (second value) post thrown) :
    Triple pre (first >>= second) post thrown := by
  intro state before
  have result := one state before
  simp only [Bind.bind]
  cases run : first state with
  | mk outcome after =>
    rw [run] at result
    cases outcome with
    | ok value => exact two value after result
    | error error => exact result

theorem pure {value : α} (holds : ∀ state, pre state → post value state) :
    Triple pre (Pure.pure value : Throwing σ ε α) post thrown := fun state before =>
      holds state before

theorem throw (holds : ∀ state, pre state → thrown error state) :
    Triple pre (Throwing.throw error : Throwing σ ε α) post thrown := fun state before =>
      holds state before

theorem bind_get {before : σ} {second : σ → Throwing σ ε β} {post : β → σ → Prop}
    (rest : Triple (· = before) (second before) post thrown) :
    Triple (· = before) (Throwing.get >>= second) post thrown := by
  rintro state rfl
  exact rest state rfl

theorem modify {change : σ → σ} {post : Unit → σ → Prop}
    (holds : ∀ state, pre state → post () (change state)) :
    Triple pre (Throwing.modify change : Throwing σ ε Unit) post thrown := fun state before =>
      holds state before

theorem require {condition : Bool} {post : Unit → σ → Prop}
    (passes : ∀ state, pre state → condition = true → post () state)
    (fails : ∀ state, pre state → condition = false → thrown error state) :
    Triple pre (Throwing.require condition error : Throwing σ ε Unit) post thrown := by
  cases condition with
  | true => exact Triple.pure fun state before => passes state before rfl
  | false => exact Triple.throw fun state before => fails state before rfl

theorem demand {value : Option α}
    (there : ∀ state element, pre state → value = some element → post element state)
    (missing : ∀ state, pre state → value = none → thrown error state) :
    Triple pre (Throwing.demand value error : Throwing σ ε α) post thrown := by
  cases value with
  | some element => exact Triple.pure fun state before => there state element before rfl
  | none => exact Triple.throw fun state before => missing state before rfl

theorem forEach {body : Nat → β → Throwing σ ε Unit} {I : Nat → σ → Prop} {thrown : ε → σ → Prop} :
    ∀ (elements : List β) (index : Nat),
      (∀ position element, elements[position]? = some element →
        Triple (I (index + position)) (body (index + position) element)
          (fun _ => I (index + position + 1)) thrown) →
      Triple (I index) (Throwing.forEach body index elements)
        (fun _ => I (index + elements.length)) thrown := by
  intro elements
  induction elements with
  | nil => exact fun index _ => Triple.pure fun state before => before
  | cons element rest ih =>
    intro index each
    refine Triple.bind (each 0 element rfl) fun _ => ?_
    have total : index + (element :: rest).length = index + 1 + rest.length := by
      rw [List.length_cons]
      omega
    rw [total]
    refine ih (index + 1) fun position other found => ?_
    have shifted := each (position + 1) other found
    rw [show index + (position + 1) = index + 1 + position by omega] at shifted
    exact shifted

end Triple

end Throwing

end EmbedCache.Lib
