import EmbedCache.Lib.Bytes

/-! `BufferWrapper` (`buffer_wrapper.hpp`): a buffer of the caller with mirrors in other kinds of
memory.

A mirror is made on the first access to its kind, as a scratch buffer of the context.
Nothing is known about the contents of a scratch buffer: it is reused from call to call. -/

namespace EmbedCache

open Lib Function Option

inductive MemoryType
  | unregistered
  | host
  | device
  | managed
  deriving DecidableEq, Repr

inductive Mirror
  | caller
  | hostScratch
  | deviceScratch
  deriving DecidableEq, Repr

structure BufferWrapper (β : Type*) where
  isConst : Bool
  size : Nat
  lastAccess : MemoryType
  buffers : MemoryType → Option Mirror
  memory : Mirror → Nat → β

namespace BufferWrapper

variable {β : Type*}

def create (isConst : Bool) (placement : MemoryType) (size : Nat) (memory : Mirror → Nat → β) :
    BufferWrapper β where
  isConst := isConst
  size := size
  lastAccess := placement
  buffers := fun memType => if memType = placement then some .caller else none
  memory := memory

/-- `get_buffer`: no allocation, no copy. -/
def getBuffer (wrapper : BufferWrapper β) (memType : MemoryType) : Option Mirror :=
  wrapper.buffers memType

/-- The end of `access_buffer`: the contents of the last access, if asked for and not there
already. -/
def finishAccess (wrapper : BufferWrapper β) (memType : MemoryType) (mirror : Mirror)
    (copyContent : Bool) :
    BufferWrapper β :=
  { wrapper with
    lastAccess := memType
    memory :=
      match wrapper.buffers wrapper.lastAccess with
      | some source =>
        if copyContent ∧ source ≠ mirror
        then Function.update wrapper.memory mirror
          (blit (wrapper.memory mirror) 0 wrapper.size (wrapper.memory source))
        else wrapper.memory
      | none => wrapper.memory }

def addMirror (wrapper : BufferWrapper β) (memType : MemoryType) (mirror : Mirror) :
    BufferWrapper β :=
  { wrapper with buffers := Function.update wrapper.buffers memType (some mirror) }

def scratchFor : MemoryType → Option Mirror
  | .host => some .hostScratch
  | .device => some .deviceScratch
  | .unregistered | .managed => none

/-- `access_buffer` for a kind that has its own scratch buffer or a mirror. -/
def accessDirect (wrapper : BufferWrapper β) (memType : MemoryType) (copyContent : Bool) :
    Option (Mirror × BufferWrapper β) :=
  match wrapper.buffers memType with
  | some mirror =>
    some (mirror, wrapper.finishAccess memType mirror (copyContent && !wrapper.isConst))
  | none =>
    if wrapper.isConst && !copyContent then none
    else (scratchFor memType).map fun mirror =>
      (mirror, (wrapper.addMirror memType mirror).finishAccess memType mirror copyContent)

/-- `access_buffer`; `none` is an exception. Unregistered memory is not allocated, host memory
stands in. -/
def accessBuffer (wrapper : BufferWrapper β) (memType : MemoryType) (copyContent : Bool) :
    Option (Mirror × BufferWrapper β) :=
  match memType, wrapper.buffers memType with
  | .unregistered, none =>
    if wrapper.isConst && !copyContent then none
    else (wrapper.accessDirect .host copyContent).map fun accessed =>
      (accessed.1, (accessed.2.addMirror .unregistered accessed.1).finishAccess .unregistered
        accessed.1 copyContent)
  | _, _ => wrapper.accessDirect memType copyContent

def write (wrapper : BufferWrapper β) (mirror : Mirror) (contents : Nat → β) : BufferWrapper β :=
  { wrapper with memory := Function.update wrapper.memory mirror contents }

/-! ### Which mirror is used -/

def mirrorFor (placement : MemoryType) : MemoryType → Mirror
  | .device => if placement = .device then .caller else .deviceScratch
  | .host => if placement = .host then .caller else .hostScratch
  | .unregistered => if placement = .unregistered ∨ placement = .host then .caller else .hostScratch
  | .managed => .caller

/-- Device and host accesses never meet in one mirror. -/
theorem mirrorFor_device_ne (placement : MemoryType) :
    mirrorFor placement .device ≠ mirrorFor placement .unregistered := by
  cases placement <;> decide

theorem mirrorFor_own (placement : MemoryType) : mirrorFor placement placement = .caller := by
  cases placement <;> rfl

/-- The mirrors are where they belong; the caller's buffer and that of the last access are among
them. -/
structure Mapped (placement : MemoryType) (wrapper : BufferWrapper β) : Prop where
  place : ∀ memType mirror, wrapper.buffers memType = some mirror →
    mirror = mirrorFor placement memType
  own : wrapper.buffers placement = some .caller
  last : wrapper.buffers wrapper.lastAccess = some (mirrorFor placement wrapper.lastAccess)

theorem mapped_create (isConst : Bool) (placement : MemoryType) (size : Nat)
    (memory : Mirror → Nat → β) :
    (create isConst placement size memory).Mapped placement := by
  refine ⟨fun memType mirror present => ?_, by simp [create], by simp [create, mirrorFor_own]⟩
  simp only [create] at present
  split at present
  · rename_i same
    rw [same, mirrorFor_own]
    exact (some.inj present).symm
  · exact absurd present (by simp)

variable {wrapper : BufferWrapper β} {placement : MemoryType}

theorem Mapped.write (mapped : wrapper.Mapped placement) (mirror : Mirror) (contents : Nat → β) :
    (wrapper.write mirror contents).Mapped placement :=
  ⟨mapped.place, mapped.own, mapped.last⟩

def buffersAfter (placement : MemoryType) (wrapper : BufferWrapper β) (memType other : MemoryType) :
    Option Mirror :=
  if other = memType ∨
    (memType = .unregistered ∧ wrapper.buffers .unregistered = none ∧ other = .host)
  then some (mirrorFor placement other) else wrapper.buffers other

def memoryAfter (placement : MemoryType) (wrapper : BufferWrapper β) (memType : MemoryType)
    (moved : Bool) :
    Mirror → Nat → β :=
  let source := mirrorFor placement wrapper.lastAccess
  let mirror := mirrorFor placement memType
  if moved ∧ source ≠ mirror
  then Function.update wrapper.memory mirror
    (blit (wrapper.memory mirror) 0 wrapper.size (wrapper.memory source))
  else wrapper.memory

def standIn (wrapper : BufferWrapper β) (memType : MemoryType) : MemoryType :=
  if memType = .unregistered ∧ wrapper.buffers .unregistered = none then .host else memType

/-- Contents move on demand; a const wrapper moves them into a new mirror only. -/
def moves (wrapper : BufferWrapper β) (memType : MemoryType) (copyContent : Bool) : Bool :=
  copyContent && (!wrapper.isConst || (wrapper.buffers memType).isNone)

section Access

variable {placement : MemoryType} {wrapper : BufferWrapper β} (mapped : wrapper.Mapped placement)

include mapped

variable (memType : MemoryType)

theorem Mapped.finishAccess_eq (copyContent : Bool) :
    wrapper.finishAccess memType (mirrorFor placement memType) copyContent =
      { wrapper with
        lastAccess := memType, memory := wrapper.memoryAfter placement memType copyContent } := by
  simp only [finishAccess, mapped.last, memoryAfter]

theorem Mapped.addMirror :
    (wrapper.addMirror memType (mirrorFor placement memType)).Mapped placement := by
  refine ⟨fun other mirror present => ?_, ?_, ?_⟩
  · simp only [BufferWrapper.addMirror, update_apply] at present
    split at present
    · rename_i same
      rw [same]
      exact (some.inj present).symm
    · exact mapped.place other mirror present
  · simp only [BufferWrapper.addMirror, update_apply]
    split
    · rename_i same
      rw [← same, mirrorFor_own]
    · exact mapped.own
  · simp only [BufferWrapper.addMirror, update_apply]
    split
    · rename_i same
      rw [same]
    · exact mapped.last

theorem Mapped.touch (memType : MemoryType) (memory : Mirror → Nat → β) :
    Mapped placement { wrapper with
      lastAccess := memType
      buffers := update wrapper.buffers memType (some (mirrorFor placement memType))
      memory := memory } :=
  ⟨(mapped.addMirror memType).place, (mapped.addMirror memType).own, by simp⟩

variable {memType : MemoryType}

theorem Mapped.scratchFor_eq (missing : wrapper.buffers memType = none)
    (allocates : memType = .host ∨ memType = .device) :
      scratchFor memType = some (mirrorFor placement memType) := by
  have other : placement ≠ memType := by
    rintro rfl
    rw [mapped.own] at missing
    exact absurd missing (by simp)
  rcases allocates with rfl | rfl <;> simp [scratchFor, mirrorFor, other]

theorem Mapped.accessDirect_eq {copyContent : Bool}
    (allowed : copyContent = true ∨ wrapper.isConst = false)
    (available : wrapper.buffers memType ≠ none ∨ memType = .host ∨ memType = .device) :
    wrapper.accessDirect memType copyContent = some (mirrorFor placement memType,
      { wrapper with
        lastAccess := memType
        buffers := update wrapper.buffers memType (some (mirrorFor placement memType))
        memory := wrapper.memoryAfter placement memType (wrapper.moves memType copyContent) }) := by
  rw [accessDirect, moves]
  cases present : wrapper.buffers memType with
  | some mirror =>
    have place := mapped.place _ _ present
    subst place
    have same : update wrapper.buffers memType (some (mirrorFor placement memType)) =
        wrapper.buffers := by
      rw [← present, update_eq_self]
    dsimp only
    rw [same, mapped.finishAccess_eq, isNone_some, Bool.or_false]
  | none =>
    have allocates := available.resolve_left (by simp [present])
    have refused : ¬ (wrapper.isConst && !copyContent) = true := by
      rcases allowed with copied | varies
      · simp [copied]
      · simp [varies]
    dsimp only
    rw [if_neg refused, mapped.scratchFor_eq present allocates, map_some,
      (mapped.addMirror memType).finishAccess_eq,
      isNone_none, Bool.or_true, Bool.and_true]
    rfl

theorem Mapped.mirrorFor_host (missing : wrapper.buffers .unregistered = none) :
    mirrorFor placement .host = mirrorFor placement .unregistered := by
  have other : placement ≠ .unregistered := by
    rintro rfl
    rw [mapped.own] at missing
    exact absurd missing (by simp)
  cases placement with
  | unregistered => exact absurd rfl other
  | host | device | managed => rfl

theorem Mapped.accessBuffer_eq {copyContent : Bool}
    (allowed : copyContent = true ∨ wrapper.isConst = false)
    (known : memType ≠ .managed) :
    wrapper.accessBuffer memType copyContent = some (mirrorFor placement memType,
      { wrapper with
        lastAccess := memType
        buffers := wrapper.buffersAfter placement memType
        memory :=
          wrapper.memoryAfter placement memType
            (wrapper.moves (wrapper.standIn memType) copyContent) }) := by
  by_cases stands : memType = .unregistered ∧ wrapper.buffers .unregistered = none
  · obtain ⟨rfl, missing⟩ := stands
    have host := mapped.mirrorFor_host missing
    have inner :=
      mapped.accessDirect_eq allowed (.inr (.inl rfl) : wrapper.buffers .host ≠ none ∨ _)
    have touched :=
      mapped.touch .host (wrapper.memoryAfter placement .host (wrapper.moves .host copyContent))
    have outer := (touched.addMirror .unregistered).finishAccess_eq .unregistered copyContent
    have buffers :
        update (update wrapper.buffers .host (some (mirrorFor placement .host))) .unregistered
        (some (mirrorFor placement .unregistered)) =
          wrapper.buffersAfter placement .unregistered := by
      funext other
      cases other <;> simp [buffersAfter, missing]
    have refused : ¬ (wrapper.isConst && !copyContent) = true := by
      rcases allowed with copied | varies
      · simp [copied]
      · simp [varies]
    unfold accessBuffer
    rw [missing]
    dsimp only
    rw [if_neg refused, inner, map_some]
    dsimp only
    rw [host] at outer ⊢
    rw [outer, standIn, if_pos ⟨rfl, missing⟩]
    simp only [BufferWrapper.addMirror, memoryAfter, host, ne_eq, not_true_eq_false, and_false,
      if_false, ← buffers]
  · have direct : wrapper.accessBuffer memType copyContent =
        wrapper.accessDirect memType copyContent := by
      unfold accessBuffer
      split
      · rename_i missing
        exact absurd ⟨rfl, missing⟩ stands
      · rfl
    have available : wrapper.buffers memType ≠ none ∨ memType = .host ∨ memType = .device := by
      cases memType with
      | unregistered => exact .inl fun missing => stands ⟨rfl, missing⟩
      | host => exact .inr (.inl rfl)
      | device => exact .inr (.inr rfl)
      | managed => exact absurd rfl known
    have buffers : update wrapper.buffers memType (some (mirrorFor placement memType)) =
        wrapper.buffersAfter placement memType := by
      funext other
      simp only [update_apply, buffersAfter]
      by_cases same : other = memType
      · simp [same]
      · have never :
            ¬ (memType = .unregistered ∧ wrapper.buffers .unregistered = none ∧ other = .host) :=
          fun both => stands ⟨both.1, both.2.1⟩
        simp [same, never]
    rw [direct, mapped.accessDirect_eq allowed available, buffers, standIn, if_neg stands]

theorem Mapped.accessed (memType : MemoryType) (memory : Mirror → Nat → β) :
    Mapped placement { wrapper with
      lastAccess := memType
      buffers := wrapper.buffersAfter placement memType
      memory := memory } := by
  refine ⟨fun other mirror present => ?_, ?_, by simp [buffersAfter]⟩
  · simp only [buffersAfter] at present
    split at present
    · exact (some.inj present).symm
    · exact mapped.place other mirror present
  · simp only [buffersAfter]
    split
    · rw [mirrorFor_own]
    · exact mapped.own

theorem Mapped.mirrorFor_standIn :
    mirrorFor placement (wrapper.standIn memType) = mirrorFor placement memType := by
  rw [standIn]
  split
  · rename_i stands
    rw [stands.1]
    exact mapped.mirrorFor_host stands.2
  · rfl

end Access

section Contents

variable {placement : MemoryType} {wrapper : BufferWrapper β} {memType : MemoryType}

theorem memoryAfter_frame (moved : Bool) {mirror : Mirror}
    (other : mirror ≠ mirrorFor placement memType) :
    wrapper.memoryAfter placement memType moved mirror = wrapper.memory mirror := by
  simp only [memoryAfter]
  split
  · exact update_of_ne other _ _
  · rfl

theorem memoryAfter_moved {i : Nat} (inside : i < wrapper.size) :
    wrapper.memoryAfter placement memType true (mirrorFor placement memType) i =
      wrapper.memory (mirrorFor placement wrapper.lastAccess) i := by
  simp only [memoryAfter]
  split
  · rw [update_self, blit_inside _ _ _ _ _ (Nat.zero_le _) (by omega), Nat.sub_zero]
  · rename_i same
    simp only [true_and, ne_eq, not_not] at same
    rw [same]

@[simp] theorem memoryAfter_false :
    wrapper.memoryAfter placement memType false = wrapper.memory := by
  simp [memoryAfter]

def Agrees (contents : Nat → β) (wrapper : BufferWrapper β) : Prop :=
  ∀ memType mirror, wrapper.buffers memType = some mirror →
    ∀ i < wrapper.size, wrapper.memory mirror i = contents i

/-- Reading through a const wrapper keeps its mirrors in agreement. -/
theorem Agrees.accessed {contents : Nat → β} (agrees : wrapper.Agrees contents)
    (mapped : wrapper.Mapped placement)
    (memType : MemoryType) : Agrees contents { wrapper with
      lastAccess := memType
      buffers := wrapper.buffersAfter placement memType
      memory :=
        wrapper.memoryAfter placement memType (wrapper.moves (wrapper.standIn memType) true) } := by
  have target : ∀ i < wrapper.size, wrapper.memoryAfter placement memType
      (wrapper.moves (wrapper.standIn memType) true) (mirrorFor placement memType) i =
        contents i := by
    intro i inside
    cases moved : wrapper.moves (wrapper.standIn memType) true with
    | true =>
      rw [memoryAfter_moved inside]
      exact agrees _ _ mapped.last i inside
    | false =>
      obtain ⟨mirror, present⟩ :
          ∃ mirror, wrapper.buffers (wrapper.standIn memType) = some mirror := by
        simp only [moves, Bool.true_and, Bool.or_eq_false_iff, isNone_eq_false_iff] at moved
        exact isSome_iff_exists.mp moved.2
      have place := mapped.place _ _ present
      rw [mapped.mirrorFor_standIn] at place
      rw [memoryAfter_false, ← place]
      exact agrees _ _ present i inside
  have everywhere : ∀ mirror, (∃ other, wrapper.buffers other = some mirror) → ∀ i < wrapper.size,
      wrapper.memoryAfter placement memType (wrapper.moves (wrapper.standIn memType) true) mirror
        i = contents i := by
    rintro mirror ⟨other, present⟩ i inside
    by_cases same : mirror = mirrorFor placement memType
    · rw [same]
      exact target i inside
    · rw [memoryAfter_frame _ same]
      exact agrees _ _ present i inside
  intro other mirror present i inside
  simp only [buffersAfter] at present
  split at present
  · rename_i either
    have place := some.inj present
    subst place
    rcases either with rfl | ⟨rfl, missing, rfl⟩
    · exact target i inside
    · rw [mapped.mirrorFor_host missing]
      exact target i inside
  · exact everywhere mirror ⟨other, present⟩ i inside

end Contents

/-! ### One access -/

structure Accessed (placement memType : MemoryType) (copyContent : Bool)
    (before after : BufferWrapper β) : Prop where
  mapped : after.Mapped placement
  size : after.size = before.size
  isConst : after.isConst = before.isConst
  last : after.lastAccess = memType
  present : after.buffers memType = some (mirrorFor placement memType)
  keeps : ∀ other, (before.buffers other).isSome → (after.buffers other).isSome
  unregistered : placement = .unregistered → memType ≠ .host →
    after.buffers .host = before.buffers .host
  frame : ∀ mirror, mirror ≠ mirrorFor placement memType →
    after.memory mirror = before.memory mirror
  moved : copyContent = true → before.isConst = false → ∀ i < before.size,
    after.memory (mirrorFor placement memType) i =
      before.memory (mirrorFor placement before.lastAccess) i
  kept : copyContent = false → after.memory = before.memory
  stays : mirrorFor placement before.lastAccess = mirrorFor placement memType →
    after.memory = before.memory
  agrees : copyContent = true → ∀ contents, before.Agrees contents → after.Agrees contents

theorem Mapped.exists_accessed (mapped : wrapper.Mapped placement) {memType : MemoryType}
    {copyContent : Bool}
    (allowed : copyContent = true ∨ wrapper.isConst = false) (known : memType ≠ .managed) :
    ∃ after,
      wrapper.accessBuffer memType copyContent = some (mirrorFor placement memType, after) ∧
        Accessed placement memType copyContent wrapper after := by
  refine ⟨_, mapped.accessBuffer_eq allowed known, ?_⟩
  constructor
  case mapped => exact mapped.accessed memType _
  case size => rfl
  case isConst => rfl
  case last => rfl
  case present => simp [buffersAfter]
  case keeps =>
    intro other present
    simp only [buffersAfter]
    split
    · rfl
    · exact present
  case unregistered =>
    intro unregistered notHost
    have own := mapped.own
    rw [unregistered] at own
    simp [buffersAfter, own, Ne.symm notHost]
  case frame => exact fun mirror other => memoryAfter_frame _ other
  case moved =>
    intro copied varies i inside
    have moves : wrapper.moves (wrapper.standIn memType) copyContent =
        true := by simp [BufferWrapper.moves, copied, varies]
    dsimp only
    rw [moves]
    exact memoryAfter_moved inside
  case kept =>
    intro fresh
    simp [BufferWrapper.moves, fresh]
  case stays =>
    intro same
    simp [memoryAfter, same]
  case agrees =>
    rintro rfl contents agrees
    exact agrees.accessed mapped memType

theorem Mapped.buffers_eq (mapped : wrapper.Mapped placement) {memType : MemoryType}
    (present : (wrapper.buffers memType).isSome) :
    wrapper.buffers memType = some (mirrorFor placement memType) := by
  obtain ⟨mirror, here⟩ := isSome_iff_exists.mp present
  rw [here, mapped.place _ _ here]

end BufferWrapper

end EmbedCache
