import EmbedCache.Lib.Throwing

/-! Directories that are asked for objects by key and build those they do not have.

A request that finds its key gets the object that is there, whatever the request would have
built. -/

namespace EmbedCache.Lib

open List Function

variable {κ ν ω : Type*}

structure Directory (κ ν ω : Type*) where
  held : κ → Option ν
  contents : ν → Option ω

namespace Directory

structure Request (κ ω : Type*) where
  key : κ
  contents : ω

inductive Fetched [DecidableEq κ] [DecidableEq ν] (before : Directory κ ν ω)
    (request : Request κ ω) :
    ν → Directory κ ν ω → Prop
  | hit {object : ν} (found : before.held request.key = some object) :
    Fetched before request object before
  | built {object : ν} (missing : before.held request.key = none)
    (fresh : ∀ key, before.held key ≠ some object) :
      Fetched before request object ⟨Function.update before.held request.key (some object),
        Function.update before.contents object (some request.contents)⟩

inductive Fetches [DecidableEq κ] [DecidableEq ν] (start : Directory κ ν ω) :
    List (Request κ ω × ν) → Directory κ ν ω → Prop
  | none : Fetches start [] start
  | next {earlier : List (Request κ ω × ν)} {middle last : Directory κ ν ω} {request : Request κ ω}
    {object : ν}
      (before : Fetches start earlier middle) (fetched : Fetched middle request object last) :
      Fetches start (earlier ++ [(request, object)]) last

def Empty (directory : Directory κ ν ω) : Prop := ∀ key, directory.held key = none

variable [DecidableEq κ] [DecidableEq ν] {start last : Directory κ ν ω}
  {fetches : List (Request κ ω × ν)}

/-- Every fetch is still under its key, and keys and objects belong together. -/
structure Kept (fetches : List (Request κ ω × ν)) (directory : Directory κ ν ω) : Prop where
  held : ∀ fetch ∈ fetches, directory.held fetch.1.key = some fetch.2
  injective : ∀ one two object, directory.held one = some object →
    directory.held two = some object → one = two
  /-- An object contains what some request with its key would have put into it. -/
  contents : ∀ key object, directory.held key = some object →
    ∃ fetch ∈ fetches, fetch.1.key = key ∧ directory.contents object = some fetch.1.contents

theorem Kept.step {middle : Directory κ ν ω} {request : Request κ ω} {object : ν}
    (kept : Kept fetches middle)
    (fetched : Fetched middle request object last) :
      Kept (fetches ++ [(request, object)]) last := by
  cases fetched with
  | hit found =>
    refine ⟨fun fetch member => ?_, kept.injective, fun key other there => ?_⟩
    · rcases mem_append.mp member with earlier | now
      · exact kept.held fetch earlier
      · rw [mem_singleton.mp now]
        exact found
    · obtain ⟨fetch, member, same, contents⟩ := kept.contents key other there
      exact ⟨fetch, mem_append_left _ member, same, contents⟩
  | built missing fresh =>
    -- a key that was there before is not the new one, and its object is not the new object
    have old {key : κ} {other : ν} (there : middle.held key = some other) :
        key ≠ request.key ∧ other ≠ object := by
      refine ⟨fun same => ?_, fun same => fresh key (same ▸ there)⟩
      rw [same, missing] at there
      cases there
    have cases {key : κ} {other : ν}
        (there : update middle.held request.key (some object) key = some other) :
        (key = request.key ∧ object = other) ∨ middle.held key = some other := by
      by_cases same : key = request.key
      · rw [same, update_self] at there
        exact .inl ⟨same, Option.some.inj there⟩
      · rw [update_of_ne same] at there
        exact .inr there
    refine ⟨fun fetch member => ?_, fun one two other first second => ?_, fun key other there => ?_⟩
    · rcases mem_append.mp member with earlier | now
      · have there := kept.held fetch earlier
        exact (update_of_ne (old there).1 ..).trans there
      · rw [mem_singleton.mp now]
        exact update_self ..
    · rcases cases first with ⟨rfl, rfl⟩ | first
      · rcases cases second with ⟨rfl, -⟩ | second
        · rfl
        · exact absurd rfl (old second).2
      · rcases cases second with ⟨-, rfl⟩ | second
        · exact absurd rfl (old first).2
        · exact kept.injective one two other first second
    · rcases cases there with ⟨rfl, rfl⟩ | there
      · exact ⟨(request, object), mem_append_right _ mem_cons_self, rfl, update_self ..⟩
      · obtain ⟨fetch, member, same, contents⟩ := kept.contents key other there
        exact ⟨fetch, mem_append_left _ member, same,
          (update_of_ne (old there).2 ..).trans contents⟩

variable (run : Fetches start fetches last) (empty : Empty start)

include run empty in
theorem Fetches.kept : Kept fetches last := by
  induction run with
  | none =>
    have nothing {key : κ} {object : ν} (there : start.held key = some object) : False := by
      rw [empty key] at there
      cases there
    exact ⟨fun _ member => absurd member not_mem_nil, fun _ _ _ there => (nothing there).elim,
      fun _ _ there => (nothing there).elim⟩
  | next before fetched ih => exact ih.step fetched

include run empty in
/-- Requests get the same object exactly if they have the same key. -/
theorem Fetches.same_object_iff {one two : Request κ ω × ν}
    (first : one ∈ fetches) (second : two ∈ fetches) : one.2 = two.2 ↔ one.1.key = two.1.key := by
  have kept := run.kept empty
  have here := kept.held one first
  have there := kept.held two second
  constructor
  · intro same
    rw [same] at here
    exact kept.injective _ _ _ here there
  · intro same
    rw [same, there] at here
    exact (Option.some.inj here).symm

include run empty in
/-- If requests with one key agree on the contents, every object contains what its requests would
have put into it. -/
theorem Fetches.contents_eq
    (agree : ∀ one ∈ fetches, ∀ two ∈ fetches, one.1.key = two.1.key →
      one.1.contents = two.1.contents)
    {fetch : Request κ ω × ν} (member : fetch ∈ fetches) :
      last.contents fetch.2 = some fetch.1.contents := by
  have kept := run.kept empty
  obtain ⟨other, there, same, contents⟩ := kept.contents _ _ (kept.held fetch member)
  rw [contents, agree other there fetch member same]

theorem Fetches.append {middle : Directory κ ν ω} {more : List (Request κ ω × ν)}
    (run : Fetches start fetches middle)
    (later : Fetches middle more last) : Fetches start (fetches ++ more) last := by
  induction later with
  | none =>
    rw [append_nil]
    exact run
  | next before fetched ih =>
    rw [← append_assoc]
    exact .next ih fetched

/-- A program state that shows a directory, and a log of the objects that were fetched from it: the
requests have been answered since `start`, and the log has grown by their objects. -/
def Answered {σ : Type*} (view : σ → Directory κ ν ω) (log : σ → List ν) (start : σ)
    (requests : List (Request κ ω)) (state : σ) :
    Prop :=
  ∃ objects, log state = log start ++ objects ∧ objects.length = requests.length ∧
    Fetches (view start) (requests.zip objects) (view state)

section Answered

variable {σ : Type*} {view : σ → Directory κ ν ω} {log : σ → List ν} {start middle state : σ}
  {requests : List (Request κ ω)}

theorem answered_start : Answered view log start [] start := ⟨[], (append_nil _).symm, rfl, .none⟩

theorem Answered.next (answered : Answered view log start requests middle) {request : Request κ ω}
    {object : ν}
    (logged : log state = log middle ++ [object])
    (fetched : Fetched (view middle) request object (view state)) :
    Answered view log start (requests ++ [request]) state := by
  obtain ⟨objects, whole, length, run⟩ := answered
  refine ⟨objects ++ [object], by rw [logged, whole, append_assoc], by simp [length], ?_⟩
  rw [zip_append length.symm]
  exact .next run fetched

theorem Answered.append (answered : Answered view log start requests middle)
    {more : List (Request κ ω)}
    (later : Answered view log middle more state) :
      Answered view log start (requests ++ more) state := by
  obtain ⟨objects, whole, length, run⟩ := answered
  obtain ⟨others, grown, same, rest⟩ := later
  refine ⟨objects ++ others, by rw [grown, whole, append_assoc], by simp [length, same], ?_⟩
  rw [zip_append length.symm]
  exact run.append rest

end Answered

/-- A loop each of whose turns makes one request. -/
theorem forEach_answered {σ ε α β : Type} {view : σ → Directory κ ν ω} {log : σ → List ν}
    {start : σ} {invariant : σ → Prop}
    (request : α → Request κ ω) (read : α → β) (body : Nat → β → Throwing σ ε Unit)
    (elements : List α) (valid : invariant start)
    (turn : ∀ index, ∀ element ∈ elements, ∀ state, invariant state →
      Throwing.Triple (· = state) (body index (read element)) (fun _ after => invariant after ∧
        ∃ object, log after = log state ++ [object] ∧
          Fetched (view state) (request element) object (view after))
        (fun _ _ => True)) :
    Throwing.Triple (· = start) (.forEach body 0 (elements.map read))
      (fun _ state => invariant state ∧ Answered view log start (elements.map request) state)
        (fun _ _ => True) := by
  have turns : Throwing.Triple
      (fun state => invariant state ∧ Answered view log start ((elements.map request).take 0) state)
      (.forEach body 0 (elements.map read))
      (fun _ state => invariant state ∧
        Answered view log start ((elements.map request).take (0 + (elements.map read).length))
          state) (fun _ _ => True) := by
    refine Throwing.Triple.forEach
      (I := fun index state => invariant state ∧
        Answered view log start ((elements.map request).take index) state)
      (elements.map read) 0 fun position other found => ?_
    rw [List.getElem?_map] at found
    obtain ⟨element, there, rfl⟩ := Option.map_eq_some_iff.mp found
    intro state ⟨kept, answered⟩
    refine ((turn _ element (mem_of_getElem? there) state kept).mono (fun _ after served => ?_)
      fun _ _ thrown => thrown) state rfl
    obtain ⟨now, object, logged, fetched⟩ := served
    refine ⟨now, ?_⟩
    rw [Nat.zero_add] at answered ⊢
    rw [take_add_one, List.getElem?_map, there]
    exact answered.next logged fetched
  refine turns.weaken (fun state same => ?_) (fun _ state both => ?_) fun _ _ thrown => thrown
  · subst same
    exact ⟨valid, answered_start⟩
  · rw [length_map, Nat.zero_add, take_of_length_le (by simp)] at both
    exact both

end Directory

end EmbedCache.Lib
