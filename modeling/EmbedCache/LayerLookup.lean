import EmbedCache.LayerContents
import Mathlib.Data.List.TakeWhile

/-! The lookup of a stack on the mirrors of its buffers.

Tables of one side work on one mirror of the output, so a run of such tables leaves there
the rows of its joint contents. Device and host never share a mirror. -/

namespace EmbedCache.HierarchicalEmbeddingLayer

open Lib BufferWrapper List Option Function
open LookupCall

variable {w : Nat} {shape : RowShape} (table : LayerTable w shape)

def side : MemoryType := if table.kind.onGpu then .device else .unregistered

theorem side_ne_managed : side table ≠ .managed := by
  unfold side
  split <;> simp

theorem side_ne_host : side table ≠ .host := by
  unfold side
  split <;> simp

section Flow

variable (shape) (call : LookupCall w) (maskPlace : MemoryType)

def current (state : LookupState w) : Nat → Bool :=
  state.hitmask.memory (mirrorFor maskPlace state.hitmask.lastAccess)

structure Ready (state : LookupState w) : Prop where
  keysMapped : state.keys.Mapped call.keysPlacement
  keysAgree : state.keys.Agrees (call.keyMemory .caller)
  keysSize : state.keys.size = call.numKeys
  hitmaskMapped : state.hitmask.Mapped maskPlace
  hitmaskSize : call.numKeys ≤ state.hitmask.size
  hitmaskVaries : state.hitmask.isConst = false
  outputMapped : state.output.Mapped call.outputPlacement
  outputSize : state.output.size = call.numKeys * shape.stride
  outputVaries : state.output.isConst = false

structure Confined (memType : MemoryType) (before after : LookupState w) : Prop where
  hitmaskKeeps : ∀ other, (before.hitmask.buffers other).isSome →
    (after.hitmask.buffers other).isSome
  outputKeeps : ∀ other, (before.output.buffers other).isSome → (after.output.buffers other).isSome
  outputHost : call.outputPlacement = .unregistered →
    after.output.buffers .host = before.output.buffers .host
  maskFrame : ∀ mirror, mirror ≠ mirrorFor maskPlace memType →
    after.hitmask.memory mirror = before.hitmask.memory mirror
  valuesFrame : ∀ mirror, mirror ≠ mirrorFor call.outputPlacement memType →
    after.output.memory mirror = before.output.memory mirror

structure Advanced (memType : MemoryType) (marks : BitVec w → Option (Nat → UInt8))
    (rows : Bool → BitVec w → Option (Nat → UInt8)) (before after : LookupState w) :
    Prop extends Confined call maskPlace memType before after where
  mask : ∀ i < call.numKeys,
    current maskPlace after i = maskAfter marks call.keys (current maskPlace before) i
  values : after.output.memory (mirrorFor call.outputPlacement memType) =
    writeRows shape (fun i => call.keys[i]?.bind (rows (current maskPlace before i)))
      (before.output.memory (mirrorFor call.outputPlacement memType))

structure Touched (memType : MemoryType) (state : LookupState w) : Prop where
  keysLast : state.keys.lastAccess = memType
  hitmaskLast : state.hitmask.lastAccess = memType
  outputLast : state.output.lastAccess = memType
  hitmaskPresent : (state.hitmask.buffers memType).isSome
  outputPresent : (state.output.buffers memType).isSome

end Flow

theorem LookupCall.keys_length (call : LookupCall w) : call.keys.length = call.numKeys := by
  simp [keys]

theorem LookupCall.keys_getElem (call : LookupCall w) {i : Nat} (inside : i < call.keys.length) :
    call.keys[i] = call.keyMemory .caller i := by
  simp [keys]

section Flow

variable {call : LookupCall w} {maskPlace memType : MemoryType}

theorem Confined.refl (state : LookupState w) : Confined call maskPlace memType state state := by
  constructor <;> simp

variable {before middle after : LookupState w}

theorem Confined.trans (early : Confined call maskPlace memType before middle)
    (late : Confined call maskPlace memType middle after) :
    Confined call maskPlace memType before after := by
  constructor
  case hitmaskKeeps =>
    exact fun other present => late.hitmaskKeeps other (early.hitmaskKeeps other present)
  case outputKeeps =>
    exact fun other present => late.outputKeeps other (early.outputKeeps other present)
  case outputHost => exact fun placed => (late.outputHost placed).trans (early.outputHost placed)
  case maskFrame => exact fun mirror other =>
    (late.maskFrame mirror other).trans (early.maskFrame mirror other)
  case valuesFrame => exact fun mirror other =>
    (late.valuesFrame mirror other).trans (early.valuesFrame mirror other)

section Access

variable {state : LookupState w} {hitmask : BufferWrapper Bool} {output : BufferWrapper UInt8}
  {copied : Bool}
  (hitmaskAccess : Accessed maskPlace memType true state.hitmask hitmask)
  (outputAccess : Accessed call.outputPlacement memType copied state.output output)

include hitmaskAccess outputAccess

theorem confined_write (notHost : memType ≠ .host) (mask : Nat → Bool) (values : Nat → UInt8)
    (keys : BufferWrapper (BitVec w)) (counters : List Nat) : Confined call maskPlace memType state
      { keys := keys
        hitmask := hitmask.write (mirrorFor maskPlace memType) mask
        output := output.write (mirrorFor call.outputPlacement memType) values
        counters := counters } := by
  constructor
  case hitmaskKeeps => exact hitmaskAccess.keeps
  case outputKeeps => exact outputAccess.keeps
  case outputHost => exact fun placed => outputAccess.unregistered placed notHost
  case maskFrame =>
    intro mirror other
    simp only [BufferWrapper.write, update_of_ne other]
    exact hitmaskAccess.frame mirror other
  case valuesFrame =>
    intro mirror other
    simp only [BufferWrapper.write, update_of_ne other]
    exact outputAccess.frame mirror other

theorem Ready.write (ready : Ready shape call maskPlace state) (mask : Nat → Bool)
    (values : Nat → UInt8)
    (counters : List Nat) : Ready shape call maskPlace
      { keys := state.keys
        hitmask := hitmask.write (mirrorFor maskPlace memType) mask
        output := output.write (mirrorFor call.outputPlacement memType) values
        counters := counters } := by
  constructor
  case keysMapped => exact ready.keysMapped
  case keysAgree => exact ready.keysAgree
  case keysSize => exact ready.keysSize
  case hitmaskMapped => exact hitmaskAccess.mapped.write _ _
  case hitmaskSize => exact ready.hitmaskSize.trans_eq hitmaskAccess.size.symm
  case hitmaskVaries => exact hitmaskAccess.isConst.trans ready.hitmaskVaries
  case outputMapped => exact outputAccess.mapped.write _ _
  case outputSize => exact outputAccess.size.trans ready.outputSize
  case outputVaries => exact outputAccess.isConst.trans ready.outputVaries

end Access

variable {state : LookupState w}

variable (ready : Ready shape call maskPlace state)

include ready in
theorem Ready.readKeys {keys : BufferWrapper (BitVec w)}
    (access : Accessed call.keysPlacement memType true state.keys keys) :
    Ready shape call maskPlace { state with keys := keys } :=
  { ready with
    keysMapped := access.mapped
    keysAgree := access.agrees rfl _ ready.keysAgree
    keysSize := access.size.trans ready.keysSize }

theorem Advanced.refl (state : LookupState w) :
    Advanced shape call maskPlace memType (fun _ => none) (fun _ _ => none) state state := by
  constructor
  case toConfined => exact Confined.refl state
  case mask =>
    intro i inside
    cases present : call.keys[i]? <;> simp [maskAfter, chosenRow, present]
  case values =>
    have nothing : (fun i : Nat => call.keys[i]?.bind fun _ => (none : Option (Nat → UInt8))) =
        fun _ => none := by
      funext i
      cases call.keys[i]? <;> rfl
    rw [nothing, writeRows_none]

theorem Advanced.trans {first second : BitVec w → Option (Nat → UInt8)}
    {early late : Bool → BitVec w → Option (Nat → UInt8)}
    (one : Advanced shape call maskPlace memType first early before middle)
    (two : Advanced shape call maskPlace memType second late middle after) :
    Advanced shape call maskPlace memType (orContents first second)
      (fun bit key => (late (bit || (first key).isSome) key).or (early bit key)) before after := by
  constructor
  case toConfined => exact one.toConfined.trans two.toConfined
  case mask =>
    intro i inside
    calc current maskPlace after i
        = maskAfter second call.keys (current maskPlace middle) i := two.mask i inside
      _ = maskAfter second call.keys (maskAfter first call.keys (current maskPlace before)) i :=
          maskAfter_congr second call.keys _ (one.mask i inside)
      _ = _ := maskAfter_or first second call.keys _ i
  case values =>
    rw [two.values, one.values, writeRows_writeRows]
    congr 1
    funext i
    cases present : call.keys[i]? with
    | none => rfl
    | some key =>
      have inside : i < call.numKeys := by
        rw [← keys_length]
        exact (List.getElem?_eq_some_iff.mp present).1
      have bit : current maskPlace middle i =
          (current maskPlace before i || (first key).isSome) := by
        rw [one.mask i inside, maskAfter, chosenRow, present]
        cases current maskPlace before i <;> simp
      simp only [bind_some, bit]

theorem tableFind_of_keys {numKeys : Nat} (some_keys : 0 < numKeys) (state : LookupState w)
    (table : LayerTable w shape) :
    tableFind numKeys state table =
      (state.keys.accessBuffer (side table) true).bind fun keys =>
      (state.hitmask.accessBuffer (side table) true).bind fun hitmask =>
      (state.output.accessBuffer (side table) false).map fun output =>
        let found :=
          table.find ((List.range numKeys).map (keys.2.memory keys.1)) (hitmask.2.memory hitmask.1)
          (output.2.memory output.1)
        { keys := keys.2
          hitmask := hitmask.2.write hitmask.1 found.mask
          output := output.2.write output.1 found.values
          counters := state.counters ++ [found.counter] } := by
  obtain ⟨more, rfl⟩ : ∃ more, numKeys = more + 1 := ⟨numKeys - 1, by omega⟩
  simp only [tableFind, side]
  cases kind : table.kind <;> rfl

include ready in
/-- One table works in its kind of memory, and its contents take effect there. -/
theorem Ready.tableFind (some_keys : 0 < call.numKeys)
    (table : LayerTable w shape) :
    ∃ after, tableFind call.numKeys state table = some after ∧ Ready shape call maskPlace after ∧
      Touched (side table) after ∧
      Advanced shape call maskPlace (side table) table.marks table.writes state after ∧
      after.counters = state.counters ++ [table.counts call.keys (current maskPlace state)] := by
  have known := side_ne_managed table
  obtain ⟨keys, keysEq, keysAccess⟩ :=
    ready.keysMapped.exists_accessed (.inl rfl : true = true ∨ _) known
  obtain ⟨hitmask, hitmaskEq, hitmaskAccess⟩ :=
    ready.hitmaskMapped.exists_accessed (.inl rfl : true = true ∨ _) known
  obtain ⟨output, outputEq, outputAccess⟩ :=
    ready.outputMapped.exists_accessed (.inr ready.outputVaries : false = true ∨ _) known
  have keysAgree := keysAccess.agrees rfl _ ready.keysAgree
  have keysRead : (List.range call.numKeys).map
      (keys.memory (mirrorFor call.keysPlacement (side table))) = call.keys := by
    apply map_congr_left
    intro i member
    refine keysAgree _ _ keysAccess.present i ?_
    rw [keysAccess.size, ready.keysSize]
    exact mem_range.mp member
  have maskRead : ∀ i < call.keys.length,
      hitmask.memory (mirrorFor maskPlace (side table)) i = current maskPlace state i := by
    intro i inside
    rw [keys_length] at inside
    exact hitmaskAccess.moved rfl ready.hitmaskVaries i (by have := ready.hitmaskSize; omega)
  rw [tableFind_of_keys some_keys, keysEq, bind_some, hitmaskEq, bind_some, outputEq, map_some]
  refine ⟨_, rfl, ?_, ?_, ?_, ?_⟩
  · exact (ready.write hitmaskAccess outputAccess _ _ _).readKeys keysAccess
  · constructor
    case keysLast => exact keysAccess.last
    case hitmaskLast => exact hitmaskAccess.last
    case outputLast => exact outputAccess.last
    case hitmaskPresent => simp [BufferWrapper.write, hitmaskAccess.present]
    case outputPresent => simp [BufferWrapper.write, outputAccess.present]
  · constructor
    case toConfined => exact confined_write hitmaskAccess outputAccess (side_ne_host table) _ _ _ _
    case mask =>
      intro i inside
      rw [← keys_length] at inside
      simp only [current, BufferWrapper.write, hitmaskAccess.last, update_self, keysRead]
      rw [table.find_mask _ _ _ inside]
      exact maskAfter_congr _ _ _ (maskRead i inside)
    case values =>
      have read : (fun i => call.keys[i]?.bind
            (table.writes (hitmask.memory (mirrorFor maskPlace (side table)) i))) =
          fun i => call.keys[i]?.bind (table.writes (current maskPlace state i)) := by
        funext i
        by_cases inside : i < call.keys.length
        · rw [maskRead i inside]
        · rw [List.getElem?_eq_none (by omega), bind_none, bind_none]
      simp only [BufferWrapper.write, update_self, keysRead]
      rw [table.find_values, read, outputAccess.kept rfl]
  · simp only [keysRead]
    rw [table.find_counter, table.counts_congr _ _ maskRead]

include ready in
theorem Ready.findTables (some_keys : 0 < call.numKeys) (tables : List (LayerTable w shape))
    (together : ∀ table ∈ tables, side table = memType) :
    ∃ after, findTables call.numKeys tables state = some after ∧ Ready shape call maskPlace after ∧
      (tables ≠ [] → Touched memType after) ∧
      Advanced shape call maskPlace memType (firstRow (maskTables tables)) (written tables)
        state after ∧
      after.counters = state.counters ++ stackCounts call.keys tables
        (current maskPlace state) := by
  induction tables generalizing state with
  | nil =>
    refine ⟨state, rfl, ready, fun some_tables => absurd rfl some_tables, Advanced.refl state, ?_⟩
    rw [stackCounts, append_nil]
  | cons table tables ih =>
    obtain ⟨middle, found, middleReady, touched, step, counter⟩ := ready.tableFind some_keys table
    rw [together table (mem_cons_self ..)] at touched step
    obtain ⟨after, rest, afterReady, last, run, counters⟩ :=
      ih middleReady fun other member => together other (mem_cons_of_mem _ member)
    have masks : ∀ i < call.keys.length, current maskPlace middle i =
        maskAfter table.marks call.keys (current maskPlace state) i :=
      fun i inside => step.mask i (by rwa [keys_length] at inside)
    refine ⟨after, ?_, afterReady, fun _ => ?_, ?_, ?_⟩
    · simp only [HierarchicalEmbeddingLayer.findTables, foldlM_cons, found, bind_eq_bind, bind_some]
      exact rest
    · cases tables with
      | nil =>
        have same : middle = after := Option.some.inj rest
        rwa [← same]
      | cons next others => exact last (cons_ne_nil next others)
    · rw [firstRow_maskTables_cons]
      exact step.trans run
    · rw [counters, counter, stackCounts, stackCounts_congr call.keys tables masks, append_assoc,
        singleton_append]

/-! ### The parts around the tables -/

variable (tables : List (LayerTable w shape))

theorem ready_startState (call : LookupCall w) :
    Ready shape call (maskPlacement tables call) (startState tables call) := by
  constructor
  case keysMapped => exact mapped_create ..
  case keysAgree =>
    intro memType mirror present i inside
    simp only [startState, create] at present ⊢
    split at present
    · rw [← Option.some.inj present]
    · exact absurd present (by simp)
  case keysSize => rfl
  case hitmaskMapped => exact (mapped_create ..).write _ _
  case hitmaskSize =>
    simp only [startState, create, BufferWrapper.write]
    omega
  case hitmaskVaries => rfl
  case outputMapped => exact mapped_create ..
  case outputSize => rfl
  case outputVaries => rfl

theorem current_startState (call : LookupCall w) {i : Nat} (inside : i < call.numKeys) :
    current (maskPlacement tables call) (startState tables call) i = false := by
  simp only [current, startState, create, BufferWrapper.write, mirrorFor_own, update_self]
  exact blit_inside _ _ _ _ _ (Nat.zero_le i) (by omega)

def filling (defaultEmbedding : Option (Nat → UInt8)) (left : Int) : Option (Nat → UInt8) :=
  if 0 < left then defaultEmbedding else none

/-- What `fillDefault` leaves. -/
structure Filled (shape : RowShape) (call : LookupCall w) (maskPlace : MemoryType)
    (fill : Option (Nat → UInt8)) (state filled : LookupState w) : Prop
    extends Ready shape call maskPlace filled,
      Confined call maskPlace .unregistered state filled where
  keys : filled.keys = state.keys
  outputLast : filled.output.lastAccess = state.output.lastAccess
  bits : ∀ i < call.numKeys, current maskPlace filled i = current maskPlace state i
  hostRows : filled.output.memory (mirrorFor call.outputPlacement .unregistered) =
    writeRows shape
      (fun i => if i < call.numKeys ∧ current maskPlace state i = false then fill else none)
      (state.output.memory (mirrorFor call.outputPlacement .unregistered))

include ready in
theorem Ready.fillDefault
    (defaultEmbedding : Option (Nat → UInt8)) (left : Int)
    (onHost : defaultEmbedding.isSome → Touched .unregistered state) :
    ∃ after, fillDefault shape defaultEmbedding left call.numKeys state = some after ∧
      Filled shape call maskPlace (filling defaultEmbedding left) state after := by
  by_cases fills : defaultEmbedding.isSome ∧ 0 < left
  · obtain ⟨row, rfl⟩ := isSome_iff_exists.mp fills.1
    have touched := onHost rfl
    obtain ⟨hitmask, hitmaskEq, hitmaskAccess⟩ :=
      ready.hitmaskMapped.exists_accessed (.inl rfl : true = true ∨ _)
        (by simp : MemoryType.unregistered ≠ .managed)
    obtain ⟨output, outputEq, outputAccess⟩ :=
      ready.outputMapped.exists_accessed (.inl rfl : true = true ∨ _)
        (by simp : MemoryType.unregistered ≠ .managed)
    have maskRead : ∀ i < call.numKeys,
        hitmask.memory (mirrorFor maskPlace .unregistered) i = current maskPlace state i :=
          fun i inside =>
      hitmaskAccess.moved rfl ready.hitmaskVaries i (Nat.lt_of_lt_of_le inside ready.hitmaskSize)
    have untouched : hitmask.write (mirrorFor maskPlace .unregistered)
        (hitmask.memory (mirrorFor maskPlace .unregistered)) =
        hitmask := by
      simp [BufferWrapper.write]
    have outputMemory : output.memory = state.output.memory :=
      outputAccess.stays (by rw [touched.outputLast])
    have missing :
        (fun i => if i < call.numKeys ∧ hitmask.memory (mirrorFor maskPlace .unregistered) i = false
        then some row else none) =
        fun i => if i < call.numKeys ∧ current maskPlace state i = false
          then filling (some row) left else none := by
      funext i
      by_cases inside : i < call.numKeys
      · simp [inside, maskRead i inside, filling, fills.2]
      · simp [inside]
    simp only [HierarchicalEmbeddingLayer.fillDefault, if_pos fills.2, hitmaskEq, outputEq,
      bind_some, map_some]
    refine ⟨_, rfl, ?_, ?_, rfl, ?_, ?_, ?_⟩
    · have written :=
        ready.write hitmaskAccess outputAccess (hitmask.memory (mirrorFor maskPlace .unregistered))
      rw [untouched] at written
      exact written _ _
    · have written := confined_write hitmaskAccess outputAccess (by simp)
        (hitmask.memory (mirrorFor maskPlace .unregistered))
      rw [untouched] at written
      exact written _ _ _
    · exact outputAccess.last.trans touched.outputLast.symm
    · intro i inside
      rw [current, hitmaskAccess.last]
      exact maskRead i inside
    · simp only [BufferWrapper.write, update_self, outputMemory, missing]
  · have nothing : filling defaultEmbedding left = none := by
      cases defaultEmbedding with
      | none => simp [filling]
      | some row => exact if_neg fun positive => fills ⟨rfl, positive⟩
    have same : HierarchicalEmbeddingLayer.fillDefault shape defaultEmbedding left call.numKeys
        state = some state := by
      cases defaultEmbedding with
      | none => rfl
      | some row => exact if_neg fun positive => fills ⟨rfl, positive⟩
    refine ⟨state, same, ready, Confined.refl state, rfl, rfl, fun i inside => rfl, ?_⟩
    simp [nothing, writeRows_none]

end Flow

/-! ### Combining the sides -/

/-- The sizes with which the scatter kernel puts the rows it copies into their places. -/
structure ScatterFits (shape : RowShape) (numKeys : Nat) (copied : Nat → Prop) : Prop where
  width : ∀ i < numKeys, copied i → shape.width < 2 ^ 32
  reached : ∀ i < numKeys, copied i → i < scatterIndices numKeys
  offset : ∀ i < numKeys, copied i → i * shape.stride < 2 ^ 32

theorem ScatterFits.imp {numKeys : Nat} {copied others : Nat → Prop}
    (fits : ScatterFits shape numKeys others) (fewer : ∀ i < numKeys, copied i → others i) :
    ScatterFits shape numKeys copied :=
  ⟨fun i inside here => fits.width i inside (fewer i inside here),
   fun i inside here => fits.reached i inside (fewer i inside here),
   fun i inside here => fits.offset i inside (fewer i inside here)⟩

theorem scatterIndices_le (numKeys : Nat) : scatterIndices numKeys ≤ numKeys := by
  unfold scatterIndices
  split
  · exact Nat.mod_le _ _
  · exact Nat.zero_le _

theorem scatter_offset {i stride : Nat} (small : i * stride < 2 ^ 32) :
    wrap32 (i * wrap32 stride) = i * stride := by
  have same : wrap32 (i * wrap32 stride) = wrap32 (i * stride) := Nat.mul_mod_mod i stride (2 ^ 32)
  rw [same, wrap32_of_lt small]

theorem ScatterFits.scatter_eq {numKeys : Nat} {mask : Nat → Bool}
    (fits : ScatterFits shape numKeys fun i => mask i = false) (even : shape.width % 2 = 0)
    (source target : Nat → UInt8) :
    embeddingForwardScatter shape numKeys source mask target =
      writeRows shape (fun i => if i < numKeys ∧ mask i = false
        then some fun o => source (i * shape.stride + o) else none) target := by
  have evenWidth : wrap32 shape.width % 2 = 0 := by
    simp only [wrap32]
    omega
  have fewer := scatterIndices_le numKeys
  have reached : (fun i => if i < scatterIndices numKeys ∧ mask i = false
        then some fun o => source (i * shape.stride + o) else none) =
      fun i => if i < numKeys ∧ mask i = false
        then some fun o => source (i * shape.stride + o) else none := by
    funext i
    congr 1
    exact propext ⟨fun inside => ⟨inside.1.trans_le fewer, inside.2⟩,
      fun inside => ⟨fits.reached i inside.1 inside.2, inside.2⟩⟩
  rw [embeddingForwardScatter, if_pos evenWidth, ← reached, ← foldl_blit_rows]
  apply foldl_ext
  intro memory i member
  cases bit : mask i with
  | true => rfl
  | false =>
    have inside := (mem_range.mp member).trans_le fewer
    simp only [scatter_offset (fits.offset i inside bit), wrap32_of_lt (fits.width i inside bit)]

section Combine

variable {call : LookupCall w} {maskPlace : MemoryType}

theorem Ready.scatterSource {state : LookupState w} (ready : Ready shape call maskPlace state)
    (last : state.output.lastAccess = .unregistered)
    (unregistered : call.outputPlacement = .unregistered → state.output.buffers .host = none) :
    ∃ after, scatterSource state.output = some (mirrorFor call.outputPlacement .host, after) ∧
      after.Mapped call.outputPlacement ∧
      (∀ other, (state.output.buffers other).isSome → (after.buffers other).isSome) ∧
      after.size = state.output.size ∧ after.isConst = false ∧
      (∀ a < state.output.size, after.memory (mirrorFor call.outputPlacement .host) a =
        state.output.memory (mirrorFor call.outputPlacement .unregistered) a) ∧
      ∀ mirror, mirror ≠ mirrorFor call.outputPlacement .host →
        after.memory mirror = state.output.memory mirror := by
  unfold HierarchicalEmbeddingLayer.scatterSource
  cases present : state.output.getBuffer .host with
  | some mirror =>
    have registered : call.outputPlacement ≠ .unregistered := by
      intro placed
      rw [getBuffer, unregistered placed] at present
      exact absurd present (by simp)
    have same : mirrorFor call.outputPlacement .host =
        mirrorFor call.outputPlacement .unregistered := by
      cases placed : call.outputPlacement with
      | unregistered => exact absurd placed registered
      | host | device | managed => rfl
    rw [ready.outputMapped.place _ _ present]
    exact ⟨_, rfl, ready.outputMapped, fun _ present => present, rfl, ready.outputVaries,
      fun a _ => by rw [same],
      fun _ _ => rfl⟩
  | none =>
    obtain ⟨after, found, access⟩ :=
      ready.outputMapped.exists_accessed (.inl rfl : true = true ∨ _)
        (by simp : MemoryType.host ≠ .managed)
    refine ⟨after, found, access.mapped, access.keeps, access.size,
      access.isConst.trans ready.outputVaries, ?_,
      access.frame⟩
    intro a inside
    rw [access.moved rfl ready.outputVaries a inside, last]

theorem Ready.combineHits {state : LookupState w} (ready : Ready shape call maskPlace state)
    (even : shape.width % 2 = 0) (last : state.output.lastAccess = .unregistered)
    (masked : (state.hitmask.buffers .device).isSome)
    (unregistered : call.outputPlacement = .unregistered → state.output.buffers .host = none) :
    ∃ after, combineHits shape true call.numKeys state = some after ∧ after.keys = state.keys ∧
      after.hitmask = state.hitmask ∧ after.output.size = state.output.size ∧
      after.output.Mapped call.outputPlacement ∧
      (∀ other, (state.output.buffers other).isSome → (after.output.buffers other).isSome) ∧
      (ScatterFits shape call.numKeys
          (fun i => state.hitmask.memory (mirrorFor maskPlace .device) i = false) →
        ∀ i < call.numKeys, ∀ o < shape.width,
        after.output.memory (mirrorFor call.outputPlacement .device) (i * shape.stride + o) =
          if state.hitmask.memory (mirrorFor maskPlace .device) i
          then state.output.memory (mirrorFor call.outputPlacement .device) (i * shape.stride + o)
          else state.output.memory (mirrorFor call.outputPlacement .unregistered)
            (i * shape.stride + o)) := by
  obtain ⟨host, hostEq, hostMapped, hostKeeps, hostSize, hostVaries, hostRead, hostFrame⟩ :=
    ready.scatterSource last unregistered
  obtain ⟨device, deviceEq, access⟩ :=
    hostMapped.exists_accessed (.inr hostVaries : false = true ∨ _)
      (by simp : MemoryType.device ≠ .managed)
  have mask : state.hitmask.getBuffer .device = some (mirrorFor maskPlace .device) :=
    ready.hitmaskMapped.buffers_eq masked
  simp only [HierarchicalEmbeddingLayer.combineHits, if_true, hostEq, bind_some, deviceEq,
    mask, map_some]
  refine ⟨_, rfl, rfl, rfl, access.size.trans hostSize, access.mapped.write _ _,
    fun other present => access.keeps other (hostKeeps other present), ?_⟩
  intro fits i inside o within
  have position : i * shape.stride + o < state.output.size := by
    have step := Nat.mul_le_mul_right shape.stride (Nat.succ_le_of_lt inside)
    have bound := shape.fits
    rw [Nat.succ_mul] at step
    rw [ready.outputSize]
    omega
  simp only [BufferWrapper.write, update_self]
  rw [fits.scatter_eq even, writeRows_row _ _ _ within, access.kept rfl,
    hostFrame (mirrorFor _ .device) (by cases call.outputPlacement <;> decide)]
  cases bit : state.hitmask.memory (mirrorFor maskPlace .device) i with
  | true => simp
  | false => simp [inside, hostRead _ position]

theorem copyBack_memory {β : Type*} (wrapper : BufferWrapper β) (final : Mirror) {a : Nat}
    (inside : a < wrapper.size) :
    (copyBack wrapper final).memory .caller a = wrapper.memory final a := by
  unfold copyBack
  split
  · rename_i same
    rw [same]
  · simp only [BufferWrapper.write, update_self]
    exact blit_inside _ _ _ _ _ (Nat.zero_le a) (by omega)

end Combine

/-! ### Whole lookups -/

structure Stack (tables gpus hosts : List (LayerTable w shape)) : Prop where
  split : tables = gpus ++ hosts
  nonempty : tables ≠ []
  onGpu : ∀ table ∈ gpus, table.kind.onGpu = true
  onHost : ∀ table ∈ hosts, table.kind.onGpu = false

variable {tables : List (LayerTable w shape)}

theorem onHost_of_isChain {table : LayerTable w shape}
    (chain : (table :: tables).IsChain fun previous next =>
      (deviceId next).isSome → deviceId next = deviceId previous)
    (host : table.kind.onGpu = false) : ∀ next ∈ tables, next.kind.onGpu = false := by
  induction tables generalizing table with
  | nil => simp
  | cons next tables ih =>
    obtain ⟨link, rest⟩ := isChain_cons_cons.mp chain
    have nextHost : next.kind.onGpu = false := by
      by_contra gpu
      simp [deviceId, host, gpu] at link
    intro other member
    rcases mem_cons.mp member with rfl | later
    · exact nextHost
    · exact ih rest nextHost other later

/-- The constructor accepts only stacks with the GPU tables first. -/
theorem Accepts.stack {defaultEmbedding : Option (Nat → UInt8)}
    (accepted : Accepts tables defaultEmbedding) :
    ∃ gpus hosts, Stack tables gpus hosts ∧
      (defaultEmbedding.isSome → hosts ≠ []) := by
  obtain ⟨nonempty, chain, defaults⟩ := accepted
  refine ⟨tables.takeWhile fun table => table.kind.onGpu,
    tables.dropWhile fun table => table.kind.onGpu, ?_, ?_⟩
  · refine ⟨(takeWhile_append_dropWhile ..).symm, nonempty, ?_, ?_⟩
    · intro table member
      have gpu := mem_takeWhile_imp member
      exact gpu
    · cases rest : tables.dropWhile fun table => table.kind.onGpu with
      | nil => simp
      | cons table others =>
        have host : table.kind.onGpu = false := by
          have head := List.head?_dropWhile_not (fun table => table.kind.onGpu) tables
          simpa [rest] using head
        have suffix : table :: others <:+ tables := rest ▸ dropWhile_suffix _
        intro other member
        rcases mem_cons.mp member with rfl | later
        · exact host
        · exact onHost_of_isChain (chain.suffix suffix) host other later
  · intro configured allGpu
    have last :=
      defaults configured (tables.getLast nonempty) (List.getLast?_eq_some_getLast nonempty)
    have gpu := dropWhile_eq_nil_iff.mp allGpu (tables.getLast nonempty) (getLast_mem nonempty)
    rw [last] at gpu
    exact absurd gpu (by simp)

namespace Stack

variable {tables gpus hosts : List (LayerTable w shape)} (stack : Stack tables gpus hosts)

include stack

theorem side_gpus : ∀ table ∈ gpus, side table = .device := by
  intro table member
  simp [side, stack.onGpu table member]

theorem side_hosts : ∀ table ∈ hosts, side table = .unregistered := by
  intro table member
  simp [side, stack.onHost table member]

theorem any_onGpu : (tables.any fun table => table.kind.onGpu) = !gpus.isEmpty := by
  have none : (hosts.any fun table => table.kind.onGpu) = false := by
    simpa using stack.onHost
  rw [stack.split, any_append, none, Bool.or_false]
  cases shapeOf : gpus with
  | nil => rfl
  | cons table others =>
    have gpu := stack.onGpu table (by simp [shapeOf])
    simp [gpu]

theorem firstOnGpu_eq : firstOnGpu tables = !gpus.isEmpty := by
  rw [stack.split, firstOnGpu]
  cases shapeOf : gpus with
  | nil =>
    cases others : hosts with
    | nil => rfl
    | cons table rest => simp [stack.onHost table (by simp [others])]
  | cons table others => simp [stack.onGpu table (by simp [shapeOf])]

theorem lastOnHost_eq : lastOnHost tables = !hosts.isEmpty := by
  rw [stack.split, lastOnHost]
  rcases eq_nil_or_concat hosts with rfl | ⟨early, last, rfl⟩
  · rcases eq_nil_or_concat gpus with rfl | ⟨early, last, rfl⟩
    · rfl
    · simp [stack.onGpu last (by simp)]
  · simp [stack.onHost last (by simp)]

end Stack

section Search

variable (call : LookupCall w) (maskPlace : MemoryType) (gpus hosts : List (LayerTable w shape))

structure Visited (state : LookupState w) : Prop extends Ready shape call maskPlace state where
  onHost : hosts ≠ [] → Touched .unregistered state
  onDevice : hosts = [] → gpus ≠ [] → Touched .device state
  device : gpus ≠ [] → (state.hitmask.buffers .device).isSome ∧
    (state.output.buffers .device).isSome
  unregistered : call.outputPlacement = .unregistered → state.output.buffers .host = none

structure Searched (state : LookupState w) :
    Prop extends Visited call maskPlace gpus hosts state where
  found : ∀ i < call.numKeys, current maskPlace state i =
    (firstRow (maskTables (gpus ++ hosts)) (call.keyMemory .caller i)).isSome
  deviceMask : gpus ≠ [] → ∀ i < call.numKeys,
    state.hitmask.memory (mirrorFor maskPlace .device) i =
      (firstRow (maskTables gpus) (call.keyMemory .caller i)).isSome
  deviceRows : state.output.memory (mirrorFor call.outputPlacement .device) =
    writeRows shape (fun i => call.keys[i]?.bind (written gpus false))
      (call.outputMemory (mirrorFor call.outputPlacement .device))
  hostRows : state.output.memory (mirrorFor call.outputPlacement .unregistered) =
    writeRows shape (fun i => call.keys[i]?.bind fun key =>
        written hosts (firstRow (maskTables gpus) key).isSome key)
      (call.outputMemory (mirrorFor call.outputPlacement .unregistered))
  counted : state.counters = stackCounts call.keys (gpus ++ hosts) fun _ => false

end Search

variable {call : LookupCall w}

theorem findTables_append (numKeys : Nat) (early late : List (LayerTable w shape))
    (state : LookupState w) :
    findTables numKeys (early ++ late) state =
      (findTables numKeys early state).bind (findTables numKeys late) := by
  simp only [findTables, foldlM_append]
  rfl

theorem maskAfter_key (call : LookupCall w) (content : BitVec w → Option (Nat → UInt8)) {i : Nat}
    (inside : i < call.numKeys) :
    maskAfter content call.keys (fun _ => false) i =
      (content (call.keyMemory .caller i)).isSome := by
  rw [← keys_length] at inside
  rw [maskAfter_empty content call.keys inside, keys_getElem]

variable {tables gpus hosts : List (LayerTable w shape)}

theorem maskTables_append (early late : List (LayerTable w shape)) :
    maskTables (early ++ late) = maskTables early ++ maskTables late := filter_append ..

theorem LookupCall.keys_some (call : LookupCall w) {i : Nat} (inside : i < call.numKeys) :
    call.keys[i]? = some (call.keyMemory .caller i) := by
  rw [← keys_length] at inside
  rw [List.getElem?_eq_getElem inside, keys_getElem]

/-- Two choices of rows are the same if they are for every key. -/
theorem LookupCall.rows_congr (call : LookupCall w)
    {one two : Nat → BitVec w → Option (Nat → UInt8)}
    (same : ∀ i < call.numKeys, one i (call.keyMemory .caller i) =
      two i (call.keyMemory .caller i)) :
    (fun i => call.keys[i]?.bind (one i)) = fun i => call.keys[i]?.bind (two i) := by
  funext i
  by_cases inside : i < call.numKeys
  · rw [call.keys_some inside, bind_some, bind_some, same i inside]
  · rw [List.getElem?_eq_none (by rw [keys_length]; omega), bind_none, bind_none]

/-- The loop over the tables: first the device side, then the host side. -/
theorem Stack.findTables (stack : Stack tables gpus hosts) (some_keys : 0 < call.numKeys) :
    ∃ state, findTables call.numKeys tables (startState tables call) = some state ∧
      Searched call (maskPlacement tables call) gpus hosts state := by
  set maskPlace := maskPlacement tables call
  have start := ready_startState tables call
  obtain ⟨middle, gpuFound, middleReady, gpuTouched, gpuRun, gpuCounts⟩ :=
    start.findTables some_keys gpus stack.side_gpus
  obtain ⟨state, hostFound, ready, hostTouched, hostRun, hostCounts⟩ :=
    middleReady.findTables some_keys hosts stack.side_hosts
  have visited : Visited call maskPlace gpus hosts state := by
    refine ⟨ready, hostTouched, ?_, ?_, ?_⟩
    · rintro rfl some_gpus
      have same : middle = state := Option.some.inj hostFound
      rw [← same]
      exact gpuTouched some_gpus
    · intro some_gpus
      have touched := gpuTouched some_gpus
      exact ⟨hostRun.hitmaskKeeps _ touched.hitmaskPresent,
        hostRun.outputKeeps _ touched.outputPresent⟩
    · intro placed
      rw [hostRun.outputHost placed, gpuRun.outputHost placed]
      simp [startState, create, placed]
  have emptyMask : ∀ i < call.keys.length,
      current maskPlace (startState tables call) i = false := by
    intro i inside
    rw [keys_length] at inside
    exact current_startState tables call inside
  have middleMask : ∀ i < call.keys.length, current maskPlace middle i =
      maskAfter (firstRow (maskTables gpus)) call.keys (fun _ => false) i := by
    intro i inside
    rw [gpuRun.mask i (by rwa [keys_length] at inside)]
    exact maskAfter_congr _ _ _ (emptyMask i inside)
  have middleBit : ∀ i < call.numKeys, current maskPlace middle i =
      (firstRow (maskTables gpus) (call.keyMemory .caller i)).isSome := by
    intro i inside
    rw [middleMask i (by rwa [keys_length]), maskAfter_key call _ inside]
  refine ⟨state, ?_, visited, ?_, ?_, ?_, ?_, ?_⟩
  · conv_lhs => rw [stack.split]
    rw [findTables_append, ← stack.split, gpuFound, bind_some, hostFound]
  · intro i inside
    have keyInside : i < call.keys.length := by rwa [keys_length]
    rw [hostRun.mask i inside, maskAfter_congr _ _ _ (middleMask i keyInside), maskAfter_or,
      ← firstRow_append, ← maskTables_append, maskAfter_key call _ inside]
  · intro some_gpus i inside
    have bit := middleBit i inside
    rw [current, (gpuTouched some_gpus).hitmaskLast] at bit
    rw [hostRun.maskFrame _ (mirrorFor_device_ne _), bit]
  · have rows := call.rows_congr fun i inside => congrFun (congrArg (written gpus)
      (emptyMask i (by rwa [keys_length]))) (call.keyMemory .caller i)
    rw [hostRun.valuesFrame _ (mirrorFor_device_ne _), gpuRun.values, rows]
    rfl
  · have rows : (fun i => call.keys[i]?.bind (written hosts (current maskPlace middle i))) =
        fun i => call.keys[i]?.bind fun key =>
          written hosts (firstRow (maskTables gpus) key).isSome key :=
      call.rows_congr fun i inside => by rw [middleBit i inside]
    rw [hostRun.values, gpuRun.valuesFrame _ (mirrorFor_device_ne _).symm, rows]
    rfl
  · rw [hostCounts, gpuCounts, stackCounts_append, stackCounts_congr call.keys hosts middleMask,
      stackCounts_congr call.keys gpus emptyMask]
    rfl

/-- Where the bytes of a row come from that no table and no default writes. -/
def restMirror (placement : MemoryType) (hosts : List (LayerTable w shape)) : Mirror :=
  if hosts.isEmpty then mirrorFor placement .device else mirrorFor placement .unregistered

/-- The row that a stack leaves for a key: on the host side missing keys are filled, and a row of
the device side stays if a table there has marked its key. -/
def leftRow (gpus hosts : List (LayerTable w shape)) (fill : Option (Nat → UInt8))
    (key : BitVec w) :
    Option (Nat → UInt8) :=
  if hosts = [] ∨ (firstRow (maskTables gpus) key).isSome then written gpus false key
  else (firstRow hosts key).or fill

def Scattered (gpus hosts : List (LayerTable w shape)) (call : LookupCall w) : Prop :=
  gpus ≠ [] → hosts ≠ [] → ScatterFits shape call.numKeys fun i =>
    firstRow (maskTables gpus) (call.keyMemory .caller i) = none

structure Delivered (tables gpus hosts : List (LayerTable w shape))
    (defaultEmbedding : Option (Nat → UInt8)) (call : LookupCall w) (result : LookupResult w) :
    Prop where
  rows : Scattered gpus hosts call → ∀ i < call.numKeys, ∀ o < shape.width,
    result.output (i * shape.stride + o) =
      ((leftRow gpus hosts (filling defaultEmbedding result.left)
          (call.keyMemory .caller i)).map fun row => row o).getD
        (call.outputMemory (restMirror call.outputPlacement hosts) (i * shape.stride + o))
  bits : ∀ mask, result.hitmask = some mask → ∀ i < call.numKeys,
    mask i = (firstRow (maskTables tables) (call.keyMemory .caller i)).isSome
  requested : result.hitmask.isSome = call.hitmaskPlacement.isSome
  accounted : (result.accounts, result.left) =
    accountHits ((tables.map fun table => table.kind.countsHits).zip
      (stackCounts call.keys tables fun _ => false)) call.numKeys
  hitrates : result.hitrates = result.accounts.map fun account => (account.hits : ℚ) / call.numKeys

section Rows

theorem TableKind.isUvm_of_host {kind : TableKind w} (host : kind.onGpu = false) :
    kind.isUvm = false := by
  cases kind with
  | gpuCache | gpuUvm => cases host
  | hostMap | hostLinear => rfl

theorem Stack.hosts_masked (stack : Stack tables gpus hosts) :
    ∀ table ∈ hosts, table.kind.isUvm = false :=
  fun table member => TableKind.isUvm_of_host (stack.onHost table member)

theorem written_isSome {key : BitVec w} (marked : (firstRow (maskTables tables) key).isSome) :
    (written tables false key).isSome := by
  induction tables with
  | nil => cases marked
  | cons table tables ih =>
    rw [firstRow_maskTables_cons, orContents] at marked
    rw [written, isSome_or, LayerTable.writes, Bool.false_and, if_neg Bool.false_ne_true]
    cases here : table.marks key with
    | none =>
      rw [here, none_or] at marked
      simp [ih marked]
    | some row =>
      have present : table.content key = some row := by
        unfold LayerTable.marks at here
        split at here
        · cases here
        · exact here
      simp [present]

variable {maskPlace : MemoryType} {gpus hosts : List (LayerTable w shape)} {state : LookupState w}
  (searched : Searched call maskPlace gpus hosts state) {i o : Nat} (inside : i < call.numKeys)
  (within : o < shape.width)

include searched inside within

theorem Searched.deviceRow :
    state.output.memory (mirrorFor call.outputPlacement .device) (i * shape.stride + o) =
      ((written gpus false (call.keyMemory .caller i)).map fun row => row o).getD
        (call.outputMemory (mirrorFor call.outputPlacement .device) (i * shape.stride + o)) := by
  rw [searched.deviceRows, writeRows_row _ _ _ within, call.keys_some inside, bind_some]

theorem Searched.hostRow (fill : Option (Nat → UInt8))
    (masked : ∀ table ∈ hosts, table.kind.isUvm = false)
    (missed : firstRow (maskTables gpus) (call.keyMemory .caller i) = none) :
    writeRows shape
        (fun i => if i < call.numKeys ∧ current maskPlace state i = false then fill else none)
        (state.output.memory (mirrorFor call.outputPlacement .unregistered))
          (i * shape.stride + o) =
      (((firstRow hosts (call.keyMemory .caller i)).or fill).map fun row => row o).getD
        (call.outputMemory (mirrorFor call.outputPlacement .unregistered)
          (i * shape.stride + o)) := by
  have bit := searched.found i inside
  rw [maskTables_append, firstRow_append, orContents, missed, none_or,
    maskTables_eq_self hosts masked] at bit
  rw [searched.hostRows, writeRows_writeRows, writeRows_row _ _ _ within, call.keys_some inside,
    bind_some, written_of_masked hosts masked, missed, bit]
  cases firstRow hosts (call.keyMemory .caller i) with
  | none => simp [inside]
  | some row => simp

end Rows

def lastSide (hosts : List (LayerTable w shape)) : MemoryType :=
  if hosts.isEmpty then .device else .unregistered

theorem restMirror_eq (placement : MemoryType) (hosts : List (LayerTable w shape)) :
    restMirror placement hosts = mirrorFor placement (lastSide hosts) := by
  rw [restMirror, lastSide]
  split <;> rfl

def finalMirror (placement : MemoryType) (gpus : List (LayerTable w shape)) : Mirror :=
  if gpus.isEmpty then mirrorFor placement .unregistered else mirrorFor placement .device

structure Combined (tables gpus hosts : List (LayerTable w shape)) (call : LookupCall w)
    (state filled combined : LookupState w) :
    Prop where
  keys : combined.keys = state.keys
  hitmaskMapped : combined.hitmask.Mapped (maskPlacement tables call)
  hitmaskSize : call.numKeys ≤ combined.hitmask.size
  hitmaskVaries : combined.hitmask.isConst = false
  bits : ∀ i < call.numKeys, current (maskPlacement tables call) combined i =
    current (maskPlacement tables call) state i
  outputSize : combined.output.size = call.numKeys * shape.stride
  outputMapped : combined.output.Mapped call.outputPlacement
  outputPresent : (combined.output.buffers (lastSide hosts)).isSome
  final : (if tables.any (fun table => table.kind.onGpu) then filled.output.getBuffer .device
      else (filled.output.getBuffer .host).or (filled.output.getBuffer .unregistered)) =
    some (finalMirror call.outputPlacement gpus)

theorem Ready.hostFinal {maskPlace : MemoryType} {state : LookupState w}
    (ready : Ready shape call maskPlace state)
    (present : (state.output.buffers .unregistered).isSome)
    (unregistered : call.outputPlacement = .unregistered → state.output.buffers .host = none) :
    (state.output.getBuffer .host).or (state.output.getBuffer .unregistered) =
      some (mirrorFor call.outputPlacement .unregistered) := by
  have host := ready.outputMapped.buffers_eq present
  unfold getBuffer
  cases registered : state.output.buffers .host with
  | none => rw [host, none_or]
  | some mirror =>
    have place := ready.outputMapped.place _ _ registered
    cases placed : call.outputPlacement with
    | unregistered =>
      rw [unregistered placed] at registered
      exact absurd registered (by simp)
    | host | device | managed =>
      rw [place, placed]
      rfl

theorem finalMirror_device (placement : MemoryType) {gpus : List (LayerTable w shape)}
    (someGpus : gpus ≠ []) : finalMirror placement gpus = mirrorFor placement .device :=
  if_neg (by simp [someGpus])

theorem restMirror_host (placement : MemoryType) {hosts : List (LayerTable w shape)}
    (someHosts : hosts ≠ []) : restMirror placement hosts = mirrorFor placement .unregistered :=
  if_neg (by simp [someHosts])

def RowsLeft (gpus hosts : List (LayerTable w shape)) (fill : Option (Nat → UInt8))
    (call : LookupCall w) (combined : LookupState w) : Prop :=
  ∀ i < call.numKeys, ∀ o < shape.width,
    combined.output.memory (finalMirror call.outputPlacement gpus) (i * shape.stride + o) =
      ((leftRow gpus hosts fill (call.keyMemory .caller i)).map fun row => row o).getD
        (call.outputMemory (restMirror call.outputPlacement hosts) (i * shape.stride + o))

section Combine

variable (stack : Stack tables gpus hosts) {state filled : LookupState w}
  {fill : Option (Nat → UInt8)}
  (searched : Searched call (maskPlacement tables call) gpus hosts state)
  (rest : Filled shape call (maskPlacement tables call) fill state filled)

include searched rest in
theorem Filled.unregistered (placed : call.outputPlacement = .unregistered) :
    filled.output.buffers .host = none := by
  rw [rest.outputHost placed]
  exact searched.unregistered placed

include rest in
theorem Filled.device : filled.output.memory (mirrorFor call.outputPlacement .device) =
    state.output.memory (mirrorFor call.outputPlacement .device) :=
  rest.valuesFrame _ (mirrorFor_device_ne _)

include stack searched rest

theorem Stack.combine_hosts (noGpus : gpus = []) :
    Combined tables gpus hosts call state filled filled ∧ RowsLeft gpus hosts fill call filled := by
  subst noGpus
  have someHosts : hosts ≠ [] := by
    rintro rfl
    exact stack.nonempty stack.split
  have present := rest.outputKeeps _ (searched.onHost someHosts).outputPresent
  constructor
  · refine ⟨rest.keys, rest.hitmaskMapped, rest.hitmaskSize, rest.hitmaskVaries,
      rest.bits, rest.outputSize, rest.outputMapped, ?_, ?_⟩
    · simpa [lastSide, someHosts] using present
    · rw [stack.any_onGpu]
      exact rest.toReady.hostFinal present (rest.unregistered searched)
  · intro i inside o within
    have row := searched.hostRow inside within fill stack.hosts_masked rfl
    rw [finalMirror, isEmpty_nil, if_pos rfl, rest.hostRows, row, restMirror_host _ someHosts,
      leftRow, if_neg (by simp [someHosts, maskTables, firstRow])]

theorem Stack.final_device (someGpus : gpus ≠ []) :
    (if tables.any (fun table => table.kind.onGpu) then filled.output.getBuffer .device
      else (filled.output.getBuffer .host).or (filled.output.getBuffer .unregistered)) =
      some (finalMirror call.outputPlacement gpus) := by
  have gpu : (!gpus.isEmpty) = true := by simp [someGpus]
  rw [stack.any_onGpu, gpu, finalMirror_device call.outputPlacement someGpus]
  exact rest.outputMapped.buffers_eq (rest.outputKeeps _ (searched.device someGpus).2)

theorem Stack.combine_gpus (noHosts : hosts = []) :
    Combined tables gpus hosts call state filled filled ∧ RowsLeft gpus hosts fill call filled := by
  subst noHosts
  have someGpus : gpus ≠ [] := by
    rintro rfl
    exact stack.nonempty stack.split
  constructor
  · exact ⟨rest.keys, rest.hitmaskMapped, rest.hitmaskSize, rest.hitmaskVaries,
      rest.bits, rest.outputSize, rest.outputMapped,
      rest.outputKeeps _ (searched.device someGpus).2,
      stack.final_device searched rest someGpus⟩
  · intro i inside o within
    rw [finalMirror_device _ someGpus, rest.device, searched.deviceRow inside within, leftRow,
      if_pos (.inl rfl)]
    rfl

/-- With tables on both sides a row comes from the device if a table there has marked its key. -/
theorem Stack.combine_both (someGpus : gpus ≠ []) (someHosts : hosts ≠ []) :
    ∃ combined, combineHits shape true call.numKeys filled = some combined ∧
      Combined tables gpus hosts call state filled combined ∧
      (Scattered gpus hosts call → RowsLeft gpus hosts fill call combined) := by
  obtain ⟨maskPresent, outputPresent⟩ := searched.device someGpus
  have even : shape.width % 2 = 0 := by
    obtain ⟨table, member⟩ := exists_mem_of_ne_nil gpus someGpus
    exact table.even (stack.onGpu table member)
  have touched := searched.onHost someHosts
  have last : filled.output.lastAccess = .unregistered := rest.outputLast.trans touched.outputLast
  obtain ⟨combined, combineEq, keys, hitmask, size, mapped, keeps, rows⟩ :=
    rest.toReady.combineHits even last (rest.hitmaskKeeps _ maskPresent)
      (rest.unregistered searched)
  refine ⟨combined, combineEq, ?_, ?_⟩
  · refine ⟨keys.trans rest.keys, hitmask ▸ rest.hitmaskMapped, hitmask ▸ rest.hitmaskSize,
      hitmask ▸ rest.hitmaskVaries, ?_, size.trans rest.outputSize, mapped, ?_,
      stack.final_device searched rest someGpus⟩
    · intro i inside
      rw [current, hitmask]
      exact rest.bits i inside
    · have present := keeps _ (rest.outputKeeps _ touched.outputPresent)
      simpa [lastSide, someHosts] using present
  · intro scattered i inside o within
    have mask : ∀ i < call.numKeys,
        filled.hitmask.memory (mirrorFor (maskPlacement tables call) .device) i =
        (firstRow (maskTables gpus) (call.keyMemory .caller i)).isSome := by
      intro i inside
      rw [rest.maskFrame _ (mirrorFor_device_ne _)]
      exact searched.deviceMask someGpus i inside
    have fits : ScatterFits shape call.numKeys fun i =>
        filled.hitmask.memory (mirrorFor (maskPlacement tables call) .device) i = false :=
      (scattered someGpus someHosts).imp fun i inside unmarked => by
        simpa [mask i inside] using unmarked
    rw [finalMirror_device _ someGpus, rows fits i inside o within, mask i inside, rest.device,
      rest.hostRows, restMirror_host _ someHosts, leftRow]
    cases missed : firstRow (maskTables gpus) (call.keyMemory .caller i) with
    | none =>
      rw [isSome_none, if_neg (by simp), if_neg (by simp [someHosts]),
        searched.hostRow inside within _ stack.hosts_masked missed]
    | some row =>
      rw [isSome_some, if_pos rfl, if_pos (.inr rfl), searched.deviceRow inside within]
      have marked : (firstRow (maskTables gpus) (call.keyMemory .caller i)).isSome := by
        rw [missed, isSome_some]
      obtain ⟨found, here⟩ := isSome_iff_exists.mp (written_isSome marked)
      rw [here]
      rfl

end Combine

/-- The default embedding and the combination of the sides. -/
theorem Stack.combine (stack : Stack tables gpus hosts) {state : LookupState w}
    (searched : Searched call (maskPlacement tables call) gpus hosts state)
    (defaultEmbedding : Option (Nat → UInt8)) (left : Int)
    (defaults : defaultEmbedding.isSome → hosts ≠ []) :
    ∃ filled combined, fillDefault shape defaultEmbedding left call.numKeys state = some filled ∧
      combineHits shape (firstOnGpu tables && lastOnHost tables) call.numKeys filled =
        some combined ∧
      Combined tables gpus hosts call state filled combined ∧
      (Scattered gpus hosts call →
        RowsLeft gpus hosts (filling defaultEmbedding left) call combined) := by
  obtain ⟨filled, fillEq, rest⟩ := searched.toReady.fillDefault defaultEmbedding left
    fun configured => searched.onHost (defaults configured)
  refine ⟨filled, ?_⟩
  rw [stack.firstOnGpu_eq, stack.lastOnHost_eq]
  by_cases noGpus : gpus = []
  · obtain ⟨ending, rows⟩ := stack.combine_hosts searched rest noGpus
    exact ⟨filled, fillEq, by simp [noGpus, HierarchicalEmbeddingLayer.combineHits], ending,
      fun _ => rows⟩
  · by_cases noHosts : hosts = []
    · obtain ⟨ending, rows⟩ := stack.combine_gpus searched rest noHosts
      exact ⟨filled, fillEq, by simp [noHosts, HierarchicalEmbeddingLayer.combineHits], ending,
        fun _ => rows⟩
    · obtain ⟨combined, combineEq, ending, rows⟩ :=
        stack.combine_both searched rest noGpus noHosts
      have both : (!gpus.isEmpty && !hosts.isEmpty) = true := by simp [noGpus, noHosts]
      exact ⟨combined, fillEq, by rw [both]; exact combineEq, ending, rows⟩

structure Left (tables gpus hosts : List (LayerTable w shape)) (call : LookupCall w)
    (result : LookupResult w) : Prop where
  keysMapped : result.state.keys.Mapped call.keysPlacement
  keysAgree : result.state.keys.Agrees (call.keyMemory .caller)
  keysSize : result.state.keys.size = call.numKeys
  keysLast : result.state.keys.lastAccess = lastSide hosts
  hitmaskMapped : result.state.hitmask.Mapped (maskPlacement tables call)
  hitmaskSize : call.numKeys ≤ result.state.hitmask.size
  hitmaskVaries : result.state.hitmask.isConst = false
  outputPresent : result.state.output.getBuffer (lastSide hosts) =
    some (restMirror call.outputPlacement hosts)
  outputFinal : ∀ a < call.numKeys * shape.stride,
    result.state.output.memory (finalMirror call.outputPlacement gpus) a = result.output a
  outputCaller : result.state.output.memory .caller = result.output

variable {β : Type*}

theorem copyBack_final (wrapper : BufferWrapper β) (final : Mirror) {a : Nat}
    (inside : a < wrapper.size) :
    (copyBack wrapper final).memory final a = (copyBack wrapper final).memory .caller a := by
  by_cases same : final = .caller
  · rw [same]
  · rw [copyBack_memory wrapper final inside, copyBack, if_neg same]
    simp [BufferWrapper.write, update_of_ne same]

theorem copyBack_frame (wrapper : BufferWrapper β) (final : Mirror) :
    (copyBack wrapper final).size = wrapper.size ∧
      (copyBack wrapper final).isConst = wrapper.isConst ∧
      (copyBack wrapper final).lastAccess = wrapper.lastAccess := by
  unfold copyBack
  split <;> exact ⟨rfl, rfl, rfl⟩

theorem copyBack_buffers (wrapper : BufferWrapper β) (final : Mirror) :
    (copyBack wrapper final).buffers = wrapper.buffers := by
  unfold copyBack
  split <;> rfl

theorem Stack.lookup (stack : Stack tables gpus hosts) (call : LookupCall w)
    (some_keys : 0 < call.numKeys)
    (defaultEmbedding : Option (Nat → UInt8)) (defaults : defaultEmbedding.isSome → hosts ≠ []) :
    ∃ result, lookup tables defaultEmbedding call = some result ∧
      Left tables gpus hosts call result ∧
      Delivered tables gpus hosts defaultEmbedding call result := by
  obtain ⟨found, foundEq, searched⟩ := stack.findTables some_keys
  set account :=
    accountHits ((tables.map fun table => table.kind.countsHits).zip found.counters)
      call.numKeys with accountEq
  obtain ⟨filled, combined, fillEq, combineEq, ending, rows⟩ :=
    stack.combine searched defaultEmbedding account.2 defaults
  have maskFinal : combined.hitmask.getBuffer combined.hitmask.lastAccess =
      some (mirrorFor (maskPlacement tables call) combined.hitmask.lastAccess) :=
        ending.hitmaskMapped.last
  simp only [HierarchicalEmbeddingLayer.lookup, foundEq, bind_some, ← accountEq, fillEq, combineEq,
    ending.final,
    maskFinal, map_some]
  refine ⟨_, rfl, ?_, ?_, ?_, ?_, ?_, rfl⟩
  · have last : found.keys.lastAccess = lastSide hosts := by
      by_cases noHosts : hosts = []
      · have someGpus : gpus ≠ [] := by
          rintro rfl
          exact stack.nonempty (by rw [stack.split, noHosts, append_nil])
        simpa [lastSide, noHosts] using (searched.onDevice noHosts someGpus).keysLast
      · simpa [lastSide, noHosts] using (searched.onHost noHosts).keysLast
    constructor
    case keysMapped => exact ending.keys ▸ searched.keysMapped
    case keysAgree => exact ending.keys ▸ searched.keysAgree
    case keysSize => exact ending.keys ▸ searched.keysSize
    case keysLast => exact ending.keys ▸ last
    case hitmaskMapped =>
      dsimp only
      unfold copyBack
      split_ifs
      · exact ending.hitmaskMapped
      · exact ending.hitmaskMapped.write _ _
      · exact ending.hitmaskMapped
    case hitmaskSize =>
      dsimp only
      split
      · rw [(copyBack_frame _ _).1]
        exact ending.hitmaskSize
      · exact ending.hitmaskSize
    case hitmaskVaries =>
      dsimp only
      split
      · rw [(copyBack_frame _ _).2.1]
        exact ending.hitmaskVaries
      · exact ending.hitmaskVaries
    case outputPresent =>
      rw [getBuffer, copyBack_buffers, restMirror_eq]
      exact ending.outputMapped.buffers_eq ending.outputPresent
    case outputFinal =>
      intro a inside
      exact copyBack_final combined.output _ (by rwa [ending.outputSize])
    case outputCaller => rfl
  · intro scattered i inside o within
    have position : i * shape.stride + o < combined.output.size := by
      have step := Nat.mul_le_mul_right shape.stride (Nat.succ_le_of_lt inside)
      have bound := shape.fits
      rw [Nat.succ_mul] at step
      rw [ending.outputSize]
      omega
    exact (copyBack_memory combined.output _ position).trans (rows scattered i inside o within)
  · intro mask delivered i inside
    obtain ⟨placement, requested, same⟩ := map_eq_some_iff.mp delivered
    rw [← same, if_pos (by simp [requested]),
      copyBack_memory combined.hitmask _ (Nat.lt_of_lt_of_le inside ending.hitmaskSize)]
    exact (ending.bits i inside).trans (by rw [searched.found i inside, stack.split])
  · simp
  · rw [accountEq, searched.counted, ← stack.split]

end EmbedCache.HierarchicalEmbeddingLayer
