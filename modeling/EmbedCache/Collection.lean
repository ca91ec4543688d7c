import EmbedCache.AutoInsert
import EmbedCache.LayerAccounting

/-! The rows that `AutoInsertHandler` collects (`layer_utils.cpp`) from the lookups of the layers.

A lookup hands its wrappers to `auto_insert`, which copies keys and rows out of one of
their mirrors behind those collected before. The state is that of one handler: its
fields and buffers are only used under its lock. -/

namespace EmbedCache

open Lib BufferWrapper Option
open HierarchicalEmbeddingLayer
    (Left LookupResult copyBack_buffers copyBack_final finalMirror restMirror)

variable {w : Nat}

structure ResizeableBuffer (β : Type*) where
  size : Nat
  contents : Nat → β

namespace ResizeableBuffer

variable {β : Type*} (buffer : ResizeableBuffer β)

/-- `get_ptr`: a larger buffer is a new one, and the old contents are lost. -/
def getPtr (size : Nat) (fresh : Nat → β) : ResizeableBuffer β :=
  if buffer.size < size then ⟨size, fresh⟩ else buffer

def copyIn (place size : Nat) (source : Nat → β) : ResizeableBuffer β :=
  { buffer with contents := blit buffer.contents place size source }

theorem getPtr_size (size : Nat) (fresh : Nat → β) :
    size ≤ (buffer.getPtr size fresh).size := by
  rw [getPtr]
  split
  · exact le_refl size
  · omega

theorem getPtr_fitting {buffer : ResizeableBuffer β} {size : Nat} (fits : size ≤ buffer.size)
    (fresh : Nat → β) :
    buffer.getPtr size fresh = buffer := if_neg (Nat.not_lt.mpr fits)

end ResizeableBuffer

/-- What `auto_insert` gets from a lookup; the hit mask only if keys are left. -/
structure Handed (w : Nat) where
  numKeys : Nat
  outputStride : Nat
  keys : BufferWrapper (BitVec w)
  output : BufferWrapper UInt8
  hitmask : Option (BufferWrapper Bool)

namespace Handed

variable (handed : Handed w)

/-- The keys are taken from host memory if they are there. -/
def keySource : Option (Nat → BitVec w) :=
  ((handed.keys.getBuffer .host).or (handed.keys.getBuffer handed.keys.lastAccess)).map
    handed.keys.memory

/-- The rows are taken from where the keys were used last. -/
def rowSource : Option (Nat → UInt8) :=
  (handed.output.getBuffer handed.keys.lastAccess).map handed.output.memory

def hitSource : Option (Nat → Bool) :=
  match handed.hitmask with
  | none => some fun _ => true
  | some hitmask => (hitmask.accessBuffer .host true).map fun accessed =>
    accessed.2.memory accessed.1

def delivered : Nat → UInt8 := handed.output.memory .caller

end Handed

open HierarchicalEmbeddingLayer (LookupCall LookupResult Accepts)

/-- `lookup` of the linear layer without pooling, up to the automatic insert. -/
def LinearUVMEmbeddingLayer.lookup {shape : RowShape} (table : LayerTable w shape)
    (call : LookupCall w) : Option (Handed w) :=
  let keys := BufferWrapper.create true call.keysPlacement call.numKeys call.keyMemory
  let output :=
    BufferWrapper.create false call.outputPlacement (call.numKeys * shape.stride) call.outputMemory
  (keys.accessBuffer .device true).bind fun keys =>
  (output.accessBuffer .device false).bind fun output =>
  let found := table.find ((List.range call.numKeys).map (keys.2.memory keys.1)) (fun _ => false)
    (output.2.memory output.1)
  let written := output.2.write output.1 found.values
  (written.getBuffer .device).map fun final =>
    { numKeys := call.numKeys
      outputStride := shape.stride
      keys := keys.2
      output := HierarchicalEmbeddingLayer.copyBack written final
      hitmask := none }

namespace AutoInsertHandler

/-- A lookup of one of the layers, with the tables as they are at that time. -/
inductive FedLookup (w width : Nat)
  | hierarchical (shape : RowShape) (rows : shape.width = width)
    (tables : List (LayerTable w shape))
      (defaultEmbedding : Option (Nat → UInt8)) (accepted : Accepts tables defaultEmbedding)
        (call : LookupCall w)
  | linear (shape : RowShape) (rows : shape.width = width) (table : LayerTable w shape)
    (call : LookupCall w)

variable {width : Nat}

def FedLookup.call : FedLookup w width → LookupCall w
  | .hierarchical _ _ _ _ _ call | .linear _ _ _ call => call

def FedLookup.handed : FedLookup w width → Option (Handed w)
  | .hierarchical shape _ tables defaultEmbedding _ call =>
    (HierarchicalEmbeddingLayer.lookup tables defaultEmbedding call).map
      fun result : LookupResult w =>
      { numKeys := call.numKeys
        outputStride := shape.stride
        keys := result.state.keys
        output := result.state.output
        hitmask := if 0 < result.left then some result.state.hitmask else none }
  | .linear _ _ table call => LinearUVMEmbeddingLayer.lookup table call

/-- A handler with its buffers. `insertStride` is the stride that a launched insert was given;
`origin` says for each slot which position of which lookup it was copied from last. -/
structure Collector (w width : Nat) where
  handler : Handler
  keys : ResizeableBuffer (BitVec w)
  data : ResizeableBuffer UInt8
  insertStride : Int
  origin : Nat → Option (FedLookup w width × Nat)

def Collector.initial : Collector w width :=
  ⟨Handler.initial, ⟨0, fun _ => 0⟩, ⟨0, fun _ => 0⟩, 0, fun _ => none⟩

structure Fresh (w : Nat) where
  keys : Nat → BitVec w
  data : Nat → UInt8

/-- The fields with which `auto_insert` gets to `collect_keys_and_data`, if it does. -/
def collecting (outputStride : Int) (outcome : LookupOutcome) (handler : Handler) :
    Option Handler :=
  if 0 < handler.collectedKeys then
    if outputStride ≠ handler.collectedOutputStride then none else some handler
  else
    let counted := { handler with insertFreqCnt := handler.insertFreqCnt - 1 }
    if counted.insertFreqCnt < 0 ∧ outcome.heuristicThrows = false ∧ outcome.insertNeeded = true
    then some { counted with collectedOutputStride := outputStride, collectedKeys := 0 }
    else none

def collectionTotalSize (settings : Settings) (handler : Handler) (numKeys : Int) : Int :=
  if handler.collectedKeys = 0 then max numKeys settings.minInsertSize else settings.minInsertSize

/-- `collect_keys_and_data` on the buffers; `none` is an exception. Keys that were missed become
invalid. -/
def collectBuffers (settings : Settings) (invalid : BitVec w) (fresh : Fresh w)
    (lookup : FedLookup w width)
    (handed : Handed w) (started : Handler) (state : Collector w width) :
      Option (Collector w width) :=
  let total := (collectionTotalSize settings started handed.numKeys).toNat
  let part := (collectionPartSize settings started handed.numKeys).toNat
  let first := started.collectedKeys.toNat
  let stride := started.collectedOutputStride.toNat
  handed.keySource.bind fun keys =>
  handed.hitSource.bind fun hit =>
  handed.rowSource.map fun rows =>
    { state with
      keys := (state.keys.getPtr total fresh.keys).copyIn first part fun j =>
        if hit j then keys j else invalid
      data := (state.data.getPtr (total * stride) fresh.data).copyIn (first * stride)
        (part * stride) rows
      origin := blit state.origin first part fun j => some (lookup, j) }

def Collector.autoInsert (settings : Settings) (invalid : BitVec w) (lookup : FedLookup w width)
    (handed : Handed w)
    (outcome : LookupOutcome) (fresh : Fresh w) (state : Collector w width) : Collector w width :=
  let locked := { state.handler with locked := true }
  let fields := fun outcome =>
    (AutoInsertHandler.autoInsert settings handed.numKeys handed.outputStride outcome locked).2
  match collecting handed.outputStride outcome locked with
  | none => { state with handler := fields outcome, insertStride := handed.outputStride }
  | some started =>
    match if outcome.collectThrows then none
      else collectBuffers settings invalid fresh lookup handed started state with
    | some collected => { collected with
      handler := fields outcome, insertStride := handed.outputStride }
    | none =>
      { state with
        handler := fields { outcome with collectThrows := true }
        keys := { state.keys with contents := fresh.keys }
        data := { state.data with contents := fresh.data } }

inductive CollectorAction (w width : Nat)
  | lookup (lookup : FedLookup w width) (outcome : LookupOutcome) (fresh : Fresh w)
  /-- A modify call, from `lock_modify` to `unlock_modify`. -/
  | modify (ending : Ending)
  | insert (ending : Ending)

/-- Lookups pass over a handler whose lock is taken, modify calls wait. -/
def Collector.step (settings : Settings) (invalid : BitVec w) (state : Collector w width) :
    CollectorAction w width → Option (Collector w width)
  | .lookup lookup outcome fresh =>
    match lookup.handed with
    | none => some state
    | some handed =>
      if settings.heuristic = false ∨ state.handler.locked then some state
      else some (state.autoInsert settings invalid lookup handed outcome fresh)
  | .modify ending =>
    if settings.heuristic = false then some state
    else if state.handler.locked then none
    else some { state with
      handler := if ending = .returns then unlockModify state.handler
        else { state.handler with locked := true } }
  | .insert ending =>
    if 0 < state.handler.launched then
      some { state with handler := runInsert settings ending state.handler }
      else none

/-! ### The fields of the handler -/

section Fields

variable {settings : Settings} {numKeys outputStride : Int} {outcome : LookupOutcome}
  {handler : Handler}

theorem autoInsert_collecting {started : Handler}
    (starts : collecting outputStride outcome handler = some started) :
    AutoInsertHandler.autoInsert settings numKeys outputStride outcome handler =
      if outcome.collectThrows then (true, started)
      else launchOrUnlock settings outcome (collectKeysAndData settings started numKeys) := by
  simp only [collecting] at starts
  simp only [AutoInsertHandler.autoInsert, collect]
  split_ifs at starts with continued stride begins
  · obtain rfl := some.inj starts
    rw [if_pos continued, if_neg stride]
    cases outcome.collectThrows <;> rfl
  · obtain rfl := some.inj starts
    rw [if_neg continued, if_pos begins.1, begins.2.1, begins.2.2]
    cases outcome.collectThrows <;> rfl

theorem autoInsert_idle (settings : Settings) (numKeys : Int)
    (idle : collecting outputStride outcome handler = none) :
    ((AutoInsertHandler.autoInsert settings numKeys outputStride outcome handler).2.locked =
      handler.locked ∧
      (AutoInsertHandler.autoInsert settings numKeys outputStride outcome handler).2.launched =
        handler.launched) ∨
    (handler.collectedKeys ≤ 0 ∧
      ∃ count, AutoInsertHandler.autoInsert settings numKeys outputStride outcome handler =
      launchOrUnlock settings outcome { handler with insertFreqCnt := count }) := by
  simp only [collecting] at idle
  simp only [AutoInsertHandler.autoInsert, collect]
  split_ifs at idle with continued stride begins
  · exact .inl (by simp [continued, stride])
  · rw [if_neg continued]
    by_cases counted : handler.insertFreqCnt - 1 < 0
    · cases throws : outcome.heuristicThrows with
      | true => exact .inl (by simp [counted])
      | false =>
        have unneeded : outcome.insertNeeded = false := by simpa [counted, throws] using begins
        exact .inr ⟨Int.not_lt.mp continued, handler.insertFreqCnt - 1, by simp [counted, unneeded]⟩
    · exact .inr ⟨Int.not_lt.mp continued, handler.insertFreqCnt - 1, by simp [counted]⟩

/-- The lock is given up with too few keys, it goes to an insert, or it stays behind. -/
theorem launchOrUnlock_cases (settings : Settings) (outcome : LookupOutcome) (handler : Handler) :
    let next := (launchOrUnlock settings outcome handler).2
    next.collectedKeys = handler.collectedKeys ∧
      next.collectedOutputStride = handler.collectedOutputStride ∧
      ((next.locked = false ∧ next.launched = handler.launched ∧
          (0 < handler.collectedKeys → handler.collectedKeys < settings.minInsertSize)) ∨
        (next.locked = handler.locked ∧ next.launched = handler.launched + 1 ∧
          0 < handler.collectedKeys) ∨
        (next.locked = handler.locked ∧ next.launched = handler.launched)) := by
  simp only [launchOrUnlock]
  split_ifs with enough throws
  · exact ⟨rfl, rfl, .inr (.inr ⟨rfl, rfl⟩)⟩
  · exact ⟨rfl, rfl, .inr (.inl ⟨rfl, rfl, enough.1⟩)⟩
  · exact ⟨rfl, rfl, .inl ⟨rfl, rfl, fun some => Int.not_le.mp fun many => enough ⟨some, many⟩⟩⟩

/-- A collection goes on where it was or begins anew. -/
theorem collecting_cases {started : Handler}
    (starts : collecting outputStride outcome handler = some started) :
    started.locked = handler.locked ∧ started.launched = handler.launched ∧
      started.collectedOutputStride = outputStride ∧
      (started = handler ∧ 0 < handler.collectedKeys ∨ started.collectedKeys = 0) := by
  simp only [collecting] at starts
  split_ifs at starts with continued stride begins
  · obtain rfl := some.inj starts
    exact ⟨rfl, rfl, (not_not.mp stride).symm, .inl ⟨rfl, continued⟩⟩
  · obtain rfl := some.inj starts
    exact ⟨rfl, rfl, rfl, .inr rfl⟩

end Fields

/-! ### What a lookup leaves to be copied -/

structure Faithful (call : LookupCall w) (handed : Handed w) : Prop where
  keys : ∀ source, handed.keySource = some source →
    ∀ j < handed.numKeys, source j = call.keyMemory .caller j
  rows : ∀ source, handed.rowSource = some source → ∀ a < handed.numKeys * handed.outputStride,
    source a = handed.delivered a

variable {handed : Handed w}

theorem keySource_eq {contents : Nat → BitVec w} (agrees : handed.keys.Agrees contents)
    {source : Nat → BitVec w}
    (found : handed.keySource = some source) {j : Nat} (inside : j < handed.keys.size) :
    source j = contents j := by
  obtain ⟨mirror, here, rfl⟩ := map_eq_some_iff.mp found
  rcases or_eq_some_iff.mp here with host | ⟨_, last⟩
  · exact agrees _ _ host j inside
  · exact agrees _ _ last j inside

/-- In a stack with tables on both sides the rows are copied from the host's mirror, the caller's
output if that lies on the host. -/
def FedLookup.Sound : FedLookup w width → Prop
  | .hierarchical _ _ tables _ _ call =>
    HierarchicalEmbeddingLayer.firstOnGpu tables = false ∨
      HierarchicalEmbeddingLayer.lastOnHost tables = false ∨
      call.outputPlacement = .host ∨ call.outputPlacement = .unregistered
  | .linear _ _ _ _ => True

open HierarchicalEmbeddingLayer in
/-- The mirror that is copied is the one that reached the caller, or the caller's own. -/
theorem restMirror_sound {shape : RowShape} {tables gpus hosts : List (LayerTable w shape)}
    (stack : Stack tables gpus hosts)
    {placement : MemoryType} (sound : firstOnGpu tables = false ∨ lastOnHost tables = false ∨
      placement = .host ∨ placement = .unregistered) :
    restMirror placement hosts = finalMirror placement gpus ∨
      restMirror placement hosts = .caller := by
  rw [stack.firstOnGpu_eq, stack.lastOnHost_eq] at sound
  have either : gpus ≠ [] ∨ hosts ≠ [] := by
    by_contra neither
    obtain ⟨rfl, rfl⟩ : gpus = [] ∧ hosts = [] := by simpa using neither
    exact stack.nonempty stack.split
  by_cases noHosts : hosts = []
  · have someGpus : gpus ≠ [] := either.resolve_right (by simp [noHosts])
    exact .inl (by simp [restMirror, finalMirror, noHosts, someGpus])
  · by_cases noGpus : gpus = []
    · exact .inl (by simp [restMirror, finalMirror, noHosts, noGpus])
    · rcases sound with first | last | rfl | rfl
      · exact absurd first (by simp [noGpus])
      · exact absurd last (by simp [noHosts])
      · exact .inr (by simp [restMirror, noHosts, mirrorFor])
      · exact .inr (by simp [restMirror, noHosts, mirrorFor])

theorem faithful_of_left {shape : RowShape} {tables gpus hosts : List (LayerTable w shape)}
    {call : LookupCall w}
    {result : LookupResult w} (left : Left tables gpus hosts call result)
    (same : restMirror call.outputPlacement hosts =
        finalMirror call.outputPlacement gpus ∨
      restMirror call.outputPlacement hosts = .caller) (hitmask : Option (BufferWrapper Bool)) :
    Faithful call ⟨call.numKeys, shape.stride, result.state.keys, result.state.output,
      hitmask⟩ := by
  constructor
  case keys =>
    intro source found j inside
    exact keySource_eq left.keysAgree found (by rwa [left.keysSize])
  case rows =>
    intro source found a inside
    simp only [Handed.rowSource, left.keysLast, left.outputPresent, map_some] at found
    obtain rfl := some.inj found
    rcases same with final | caller
    · rw [final, left.outputFinal a inside, Handed.delivered, left.outputCaller]
    · rw [caller]
      rfl

theorem linear_faithful {shape : RowShape} (table : LayerTable w shape) (call : LookupCall w)
    (returned : LinearUVMEmbeddingLayer.lookup table call = some handed) :
    Faithful call handed ∧ handed.outputStride = shape.stride := by
  have keysMapped := mapped_create true call.keysPlacement call.numKeys call.keyMemory
  have outputMapped :=
    mapped_create false call.outputPlacement (call.numKeys * shape.stride) call.outputMemory
  obtain ⟨keys, keysEq, keysAfter⟩ := keysMapped.exists_accessed (.inl rfl : true = true ∨ _)
    (by decide : MemoryType.device ≠ .managed)
  obtain ⟨output, outputEq, outputAfter⟩ :=
    outputMapped.exists_accessed (.inr rfl : false = true ∨ _)
    (by decide : MemoryType.device ≠ .managed)
  have agrees : keys.Agrees (call.keyMemory .caller) := by
    refine keysAfter.agrees rfl _ ?_
    intro memType mirror present i _
    simp only [BufferWrapper.create] at present
    split at present
    · rw [← some.inj present]
      rfl
    · exact absurd present (by simp)
  simp only [LinearUVMEmbeddingLayer.lookup, keysEq, outputEq, bind_some, BufferWrapper.getBuffer,
    BufferWrapper.write, outputAfter.present, map_some] at returned
  obtain rfl := some.inj returned
  refine ⟨⟨?_, ?_⟩, rfl⟩
  · intro source found j inside
    exact keySource_eq agrees found (by rw [keysAfter.size]; exact inside)
  · intro source found a inside
    simp only [Handed.rowSource, keysAfter.last, BufferWrapper.getBuffer, copyBack_buffers,
      outputAfter.present, map_some] at found
    obtain rfl := some.inj found
    exact copyBack_final _ _ (by rw [outputAfter.size]; exact inside)

variable {lookup : FedLookup w width}

theorem FedLookup.faithful (sound : lookup.Sound) (returned : lookup.handed = some handed) :
    Faithful lookup.call handed ∧ width ≤ handed.outputStride := by
  cases lookup with
  | hierarchical shape rows tables defaultEmbedding accepted call =>
    obtain ⟨result, delivered, rfl⟩ := map_eq_some_iff.mp returned
    refine ⟨?_, rows ▸ shape.fits⟩
    by_cases some_keys : 0 < call.numKeys
    · obtain ⟨gpus, hosts, stack, defaults⟩ := accepted.stack
      obtain ⟨other, found, left, _⟩ := stack.lookup call some_keys defaultEmbedding defaults
      obtain rfl := some.inj (delivered.symm.trans found)
      exact faithful_of_left left (restMirror_sound stack sound) _
    · have none : call.numKeys = 0 := Nat.eq_zero_of_not_pos some_keys
      constructor
      · intro source _ j inside
        exact absurd inside (by simp [none])
      · intro source _ a inside
        exact absurd inside (by simp [none])
  | linear shape rows table call =>
    obtain ⟨faithful, stride⟩ := linear_faithful table call returned
    exact ⟨faithful, by rw [stride, ← rows]; exact shape.fits⟩

/-! ### Slots -/

/-- A slot has an invalid key, or the key and the delivered row of the position it comes from, which
was a hit of a good lookup. -/
def Traced (invalid : BitVec w) (good : FedLookup w width → Prop) (stride : Nat)
    (state : Collector w width)
    (slot : Nat) : Prop :=
  ∃ lookup handed hit j, state.origin slot = some (lookup, j) ∧ good lookup ∧
    lookup.handed = some handed ∧
    handed.hitSource = some hit ∧ j < handed.numKeys ∧
    (state.keys.contents slot ≠ invalid → hit j = true ∧
      state.keys.contents slot = lookup.call.keyMemory .caller j ∧
      ∀ o < width, state.data.contents (slot * stride + o) =
        handed.delivered (j * handed.outputStride + o))

section Slots

variable {settings : Settings} {invalid : BitVec w} {good : FedLookup w width → Prop}
  {fresh : Fresh w}
  {lookup : FedLookup w width} {handed : Handed w} {started : Handler}
  {state collected : Collector w width}

section

variable (copied : collectBuffers settings invalid fresh lookup handed started state =
    some collected)

include copied

theorem collectBuffers_new
    (kept : good lookup) (returned : lookup.handed = some handed)
    (faithful : Faithful lookup.call handed)
    (fits : width ≤ handed.outputStride)
    (stride : started.collectedOutputStride = handed.outputStride) {slot : Nat}
    (lower : started.collectedKeys.toNat ≤ slot)
    (upper : slot < started.collectedKeys.toNat +
      (collectionPartSize settings started handed.numKeys).toNat) :
    Traced invalid good handed.outputStride collected slot := by
  simp only [collectBuffers, bind_eq_some_iff, map_eq_some_iff] at copied
  obtain ⟨keys, keysEq, hit, hitEq, rows, rowsEq, rfl⟩ := copied
  obtain ⟨j, rfl⟩ := Nat.exists_eq_add_of_le lower
  have part : j < (collectionPartSize settings started handed.numKeys).toNat := by omega
  have inside : j < handed.numKeys := by
    have bound : collectionPartSize settings started handed.numKeys ≤ handed.numKeys :=
      min_le_left _ _
    omega
  refine ⟨lookup, handed, hit, j, ?_, kept, returned, hitEq, inside, fun valid => ?_⟩
  · dsimp only
    rw [blit_inside _ _ _ _ _ lower upper, Nat.add_sub_cancel_left]
  · simp only [ResizeableBuffer.copyIn] at valid ⊢
    rw [blit_inside _ _ _ _ _ lower upper, Nat.add_sub_cancel_left] at valid ⊢
    have hits : hit j = true := by
      by_contra missed
      exact valid (if_neg missed)
    rw [if_pos hits]
    refine ⟨hits, faithful.keys keys keysEq j inside, fun o within => ?_⟩
    have position : (started.collectedKeys.toNat + j) * handed.outputStride + o =
        started.collectedKeys.toNat * handed.outputStride + (j * handed.outputStride + o) := by ring
    have below : ∀ count, j < count →
        j * handed.outputStride + o < count * handed.outputStride := by
      intro count less
      have row := Nat.mul_le_mul_right handed.outputStride (Nat.succ_le_of_lt less)
      rw [Nat.succ_mul] at row
      omega
    have span := below _ part
    rw [stride, Int.toNat_natCast, position,
      blit_inside _ _ _ _ _ (Nat.le_add_right _ _) (by omega), Nat.add_sub_cancel_left]
    exact faithful.rows rows rowsEq _ (below _ inside)

/-- The slots that are filled already stay, since the buffers do not grow. -/
theorem collectBuffers_kept
    (keysRoom : (collectionTotalSize settings started handed.numKeys).toNat ≤ state.keys.size)
    (dataRoom : (collectionTotalSize settings started handed.numKeys).toNat *
      started.collectedOutputStride.toNat ≤
      state.data.size)
    (fits : width ≤ started.collectedOutputStride.toNat) {slot : Nat}
    (earlier : slot < started.collectedKeys.toNat)
    (traced : Traced invalid good started.collectedOutputStride.toNat state slot) :
    Traced invalid good started.collectedOutputStride.toNat collected slot := by
  simp only [collectBuffers, bind_eq_some_iff, map_eq_some_iff] at copied
  obtain ⟨keys, _, hit, _, rows, _, rfl⟩ := copied
  obtain ⟨source, earlierHanded, earlierHit, j, origin, kept, returned, hitEq, inside, row⟩ :=
    traced
  refine ⟨source, earlierHanded, earlierHit, j, ?_, kept, returned, hitEq, inside, fun valid => ?_⟩
  · dsimp only
    rw [blit_outside _ _ _ _ _ (.inl earlier), origin]
  · simp only [ResizeableBuffer.copyIn, ResizeableBuffer.getPtr_fitting keysRoom,
      ResizeableBuffer.getPtr_fitting dataRoom]
      at valid ⊢
    rw [blit_outside _ _ _ _ _ (.inl earlier)] at valid ⊢
    refine ⟨(row valid).1, (row valid).2.1, fun o within => ?_⟩
    have before :=
      Nat.mul_le_mul_right started.collectedOutputStride.toNat (Nat.succ_le_of_lt earlier)
    rw [Nat.succ_mul] at before
    rw [blit_outside _ _ _ _ _ (.inl (by omega))]
    exact (row valid).2.2 o within

end

end Slots

/-! ### Runs -/

structure Intact (invalid : BitVec w) (good : FedLookup w width → Prop)
    (state : Collector w width) : Prop where
  counted : 0 ≤ state.handler.collectedKeys
  traced : ∀ slot < state.handler.collectedKeys.toNat,
    Traced invalid good state.handler.collectedOutputStride.toNat state slot

/-- With the lock free or with an insert the slots are intact; a collection in progress has room for
all its keys. Behind a lock that is never given up they do not matter. -/
structure Collected (settings : Settings) (invalid : BitVec w) (good : FedLookup w width → Prop)
    (state : Collector w width) : Prop where
  free : state.handler.locked = false → state.handler.launched = 0 ∧ Intact invalid good state ∧
    (0 < state.handler.collectedKeys → state.handler.collectedKeys < settings.minInsertSize ∧
      settings.minInsertSize.toNat ≤ state.keys.size ∧
      settings.minInsertSize.toNat * state.handler.collectedOutputStride.toNat ≤ state.data.size)
  inserting : 0 < state.handler.launched → state.handler.launched = 1 ∧
    state.insertStride = state.handler.collectedOutputStride ∧ Intact invalid good state

theorem collected_stuck {settings : Settings} {invalid : BitVec w} {good : FedLookup w width → Prop}
    {state : Collector w width} (locked : state.handler.locked = true)
    (launched : state.handler.launched = 0) :
    Collected settings invalid good state := by
  constructor
  case free =>
    intro unlocked
    exact absurd (locked.symm.trans unlocked) (by simp)
  case inserting =>
    intro some
    omega

section Steps

variable {settings : Settings} {invalid : BitVec w} {good : FedLookup w width → Prop}
  {state : Collector w width}

theorem Collected.collect (collected : Collected settings invalid good state)
    (unlocked : state.handler.locked = false)
    (kept : good lookup) (returned : lookup.handed = some handed)
    (faithful : Faithful lookup.call handed)
    (fits : width ≤ handed.outputStride) {outcome : LookupOutcome} {started : Handler}
    (starts : collecting handed.outputStride outcome { state.handler with locked := true } =
      some started)
    {fresh : Fresh w} {next : Collector w width}
    (copied : collectBuffers settings invalid fresh lookup handed started state = some next) :
    let handler := collectKeysAndData settings started handed.numKeys
    0 ≤ handler.collectedKeys ∧
      (∀ slot < handler.collectedKeys.toNat,
        Traced invalid good handler.collectedOutputStride.toNat next slot) ∧
      (handler.collectedKeys < settings.minInsertSize →
        settings.minInsertSize.toNat ≤ next.keys.size ∧
        settings.minInsertSize.toNat * handler.collectedOutputStride.toNat ≤ next.data.size) := by
  obtain ⟨_, intact, room⟩ := collected.free unlocked
  obtain ⟨_, _, stride, progress⟩ := collecting_cases starts
  have size : (collectionTotalSize settings started handed.numKeys).toNat ≤ next.keys.size ∧
      (collectionTotalSize settings started handed.numKeys).toNat *
        started.collectedOutputStride.toNat ≤ next.data.size := by
    simp only [collectBuffers, bind_eq_some_iff, map_eq_some_iff] at copied
    obtain ⟨keys, _, hit, _, rows, _, rfl⟩ := copied
    exact ⟨ResizeableBuffer.getPtr_size _ _ _, ResizeableBuffer.getPtr_size _ _ _⟩
  have new : ∀ {slot}, started.collectedKeys.toNat ≤ slot →
      slot < started.collectedKeys.toNat +
        (collectionPartSize settings started handed.numKeys).toNat →
      Traced invalid good handed.outputStride next slot :=
        collectBuffers_new copied kept returned faithful fits stride
  have strideNat : started.collectedOutputStride.toNat =
      handed.outputStride := by rw [stride, Int.toNat_natCast]
  simp only [collectKeysAndData, strideNat]
  rcases progress with ⟨same, continued⟩ | none
  · -- the collection goes on
    have some : 0 < state.handler.collectedKeys := continued
    obtain ⟨below, keysRoom, dataRoom⟩ := room some
    have countEq : started.collectedKeys = state.handler.collectedKeys := by rw [same]
    have strideEq : started.collectedOutputStride =
        state.handler.collectedOutputStride := by rw [same]
    have total : collectionTotalSize settings started handed.numKeys = settings.minInsertSize :=
      if_neg (by omega)
    have part : collectionPartSize settings started handed.numKeys =
        min (handed.numKeys : Int) (settings.minInsertSize - started.collectedKeys) := by
      rw [← total]
      rfl
    rw [total, strideNat] at size
    refine ⟨by omega, fun slot inside => ?_, fun _ => size⟩
    by_cases earlier : slot < started.collectedKeys.toNat
    · rw [← strideNat]
      refine collectBuffers_kept copied (by rwa [total]) (by rwa [total, strideEq])
        (by rwa [strideNat]) earlier ?_
      rw [strideEq]
      exact intact.traced slot (by rwa [← countEq])
    · exact new (Nat.not_lt.mp earlier) (by omega)
  · -- the first lookup of a collection
    have total : collectionTotalSize settings started handed.numKeys =
        max (handed.numKeys : Int) settings.minInsertSize :=
      if_pos none
    have part : collectionPartSize settings started handed.numKeys =
        min (handed.numKeys : Int)
          (max (handed.numKeys : Int) settings.minInsertSize - started.collectedKeys) := by
      rw [← total]
      rfl
    rw [total, strideNat] at size
    refine ⟨by omega, fun slot inside => ?_, fun _ => ⟨by omega, ?_⟩⟩
    · exact new (by omega) (by omega)
    · exact (Nat.mul_le_mul_right handed.outputStride (by omega)).trans size.2

theorem Collected.finish (next : Collector w width) (handler : Handler)
    (locked : handler.locked = true)
    (launched : handler.launched = 0) (outcome : LookupOutcome)
    (counted : 0 ≤ handler.collectedKeys)
    (traced : ∀ slot < handler.collectedKeys.toNat,
      Traced invalid good handler.collectedOutputStride.toNat next slot)
    (room : 0 < handler.collectedKeys → handler.collectedKeys < settings.minInsertSize →
      settings.minInsertSize.toNat ≤ next.keys.size ∧
        settings.minInsertSize.toNat * handler.collectedOutputStride.toNat ≤ next.data.size)
    (stride : 0 < handler.collectedKeys → next.insertStride = handler.collectedOutputStride) :
    Collected settings invalid good { next with
      handler := (launchOrUnlock settings outcome handler).2 } := by
  obtain ⟨count, strideSame, ending⟩ := launchOrUnlock_cases settings outcome handler
  have intact : Intact invalid good { next with
    handler := (launchOrUnlock settings outcome handler).2 } := by
    refine ⟨by rw [count]; exact counted, fun slot inside => ?_⟩
    rw [count] at inside
    rw [strideSame]
    exact traced slot inside
  rcases ending with ⟨unlocked, same, few⟩ | ⟨held, more, some⟩ | ⟨held, same⟩
  · constructor
    case free =>
      intro _
      refine ⟨same.trans launched, intact, fun some => ?_⟩
      rw [count] at some ⊢
      rw [strideSame]
      exact ⟨few some, room some (few some)⟩
    case inserting =>
      intro some
      have none := same.trans launched
      dsimp only at some
      omega
  · constructor
    case free =>
      intro unlocked
      exact absurd ((held.trans locked).symm.trans unlocked) (by simp)
    case inserting =>
      intro _
      exact ⟨by rw [more, launched], (stride some).trans strideSame.symm, intact⟩
  · exact collected_stuck (held.trans locked) (same.trans launched)

theorem Collected.autoInsert (collected : Collected settings invalid good state)
    (unlocked : state.handler.locked = false) (sound : lookup.Sound) (kept : good lookup)
    (returned : lookup.handed = some handed) (outcome : LookupOutcome) (fresh : Fresh w) :
    Collected settings invalid good
      (state.autoInsert settings invalid lookup handed outcome fresh) := by
  obtain ⟨faithful, fits⟩ := lookup.faithful sound returned
  obtain ⟨launched, intact, _⟩ := collected.free unlocked
  simp only [Collector.autoInsert]
  cases starts : collecting handed.outputStride outcome { state.handler with locked := true } with
  | none =>
    rcases autoInsert_idle settings handed.numKeys starts with ⟨held, same⟩ | ⟨few, count, ends⟩
    · exact collected_stuck held (same.trans launched)
    · have none : state.handler.collectedKeys = 0 := le_antisymm few intact.counted
      dsimp only
      rw [ends]
      refine Collected.finish { state with insertStride := handed.outputStride }
        { state.handler with
          locked := true, insertFreqCnt := count } rfl launched outcome intact.counted ?_ ?_ ?_
      · intro slot inside
        exact absurd inside (by simp [none])
      · intro some
        exact absurd some (by simp [none])
      · intro some
        exact absurd some (by simp [none])
  | some started =>
    obtain ⟨startedLocked, startedLaunched, stride, _⟩ := collecting_cases starts
    have throws : collecting handed.outputStride { outcome with collectThrows := true }
        { state.handler with locked := true } = some started := starts
    dsimp only
    split
    · rename_i next copied
      split_ifs at copied with thrown
      rw [autoInsert_collecting starts, if_neg thrown]
      obtain ⟨counted, traced, room⟩ :=
        collected.collect unlocked kept returned faithful fits starts copied
      exact Collected.finish { next with insertStride := handed.outputStride }
        (collectKeysAndData settings started handed.numKeys) startedLocked
          (startedLaunched.trans launched) outcome counted
        traced (fun _ => room) (fun _ => stride.symm)
    · rw [autoInsert_collecting throws, if_pos rfl]
      exact collected_stuck startedLocked (startedLaunched.trans launched)

theorem collected_empty (state : Collector w width) {handler : Handler}
    (none : handler.collectedKeys = 0)
    (launched : handler.launched = 0) :
    Collected settings invalid good { state with handler := handler } := by
  constructor
  case free =>
    intro _
    refine ⟨launched, ⟨none.ge, fun slot inside => ?_⟩, fun some => ?_⟩
    · exact absurd inside (by simp [none])
    · exact absurd some (by simp [none])
  case inserting =>
    intro some
    dsimp only at some
    omega

def CollectorAction.Feeds (good : FedLookup w width → Prop) : CollectorAction w width → Prop
  | .lookup fed _ _ => good fed
  | .modify _ | .insert _ => True

theorem Collected.step {action : CollectorAction w width}
    (collected : Collected settings invalid good state)
    (sound : action.Feeds fun fed => fed.Sound ∧ good fed) {next : Collector w width}
    (taken : state.step settings invalid action = some next) :
    Collected settings invalid good next := by
  cases action with
  | lookup lookup outcome fresh =>
    simp only [Collector.step] at taken
    cases returned : lookup.handed with
    | none =>
      simp only [returned] at taken
      exact some.inj taken ▸ collected
    | some handed =>
      simp only [returned] at taken
      split_ifs at taken with passed
      · exact some.inj taken ▸ collected
      · obtain rfl := some.inj taken
        exact collected.autoInsert (by simpa using (not_or.mp passed).2) sound.1 sound.2
          returned outcome fresh
  | modify ending =>
    simp only [Collector.step] at taken
    split_ifs at taken with unused locked returns
    · exact some.inj taken ▸ collected
    · obtain ⟨launched, _⟩ := collected.free (by simpa using locked)
      obtain rfl := some.inj taken
      exact collected_empty state rfl launched
    · obtain ⟨launched, _⟩ := collected.free (by simpa using locked)
      obtain rfl := some.inj taken
      exact collected_stuck rfl launched
  | insert ending =>
    simp only [Collector.step] at taken
    split_ifs at taken with launched
    obtain ⟨one, _⟩ := collected.inserting launched
    have locked : state.handler.locked = true := by
      by_contra unlocked
      have none := (collected.free (by simpa using unlocked)).1
      omega
    obtain rfl := some.inj taken
    cases ending with
    | returns => exact collected_empty state rfl (by simp [runInsert, one])
    | throws => exact collected_stuck locked (by simp [runInsert, one])
    | hangs => exact collected_stuck locked (by simp [runInsert, one])

end Steps

def SoundRuns (settings : Settings) (invalid : BitVec w) :
    Collector w width → List (CollectorAction w width) → Collector w width → Prop :=
  Run fun first action second => action.Feeds FedLookup.Sound ∧
    first.step settings invalid action = some second

/-- A launched insert passes on rows as they were delivered: each slot has an invalid key, or the
key and the row of the position of the lookup that filled it. -/
theorem inserted_rows_delivered {settings : Settings} {invalid : BitVec w}
    {actions : List (CollectorAction w width)}
    {state : Collector w width} (run : SoundRuns settings invalid Collector.initial actions state)
    (launched : 0 < state.handler.launched) (slot : Nat)
    (inside : slot < state.handler.collectedKeys.toNat) :
    Traced invalid FedLookup.Sound state.insertStride.toNat state slot := by
  have collected : Collected settings invalid FedLookup.Sound state := by
    refine Run.invariant (Collected settings invalid FedLookup.Sound)
      (fun _ action _ taken collected => ?_) run
      (collected_empty Collector.initial rfl rfl)
    refine collected.step ?_ taken.2
    cases action with
    | lookup fed outcome fresh => exact ⟨taken.1, taken.1⟩
    | modify ending => trivial
    | insert ending => trivial
  obtain ⟨_, stride, intact⟩ := collected.inserting launched
  rw [stride]
  exact intact.traced slot inside

def eager : Settings := ⟨true, 0, 1⟩

def fedCacheMap (outputPlacement : MemoryType) : FedLookup 8 2 :=
  .hierarchical HierarchicalEmbeddingLayer.pairRows rfl
    [HierarchicalEmbeddingLayer.cacheOf true [1], HierarchicalEmbeddingLayer.mapOf [2]] none
    (HierarchicalEmbeddingLayer.accepts_two rfl none)
      (HierarchicalEmbeddingLayer.callOf [1, 2] outputPlacement)

def feed (outputPlacement : MemoryType) : CollectorAction 8 2 :=
  .lookup (fedCacheMap outputPlacement) fine ⟨fun _ => 0, fun _ => 0⟩

/-- With the output in pinned memory both keys are inserted as they were delivered. -/
theorem inserted_rows_delivered_pinned : ∃ state : Collector 8 2, 0 < state.handler.launched ∧
    state.handler.collectedKeys = 2 ∧ state.keys.contents 0 = 1 ∧
      Traced 255 FedLookup.Sound state.insertStride.toNat state 0 := by
  have summary : (Collector.initial.step eager 255 (feed .host)).map
      (fun state => (state.handler.launched, state.handler.collectedKeys, state.keys.contents 0)) =
        some (1, 2, 1) := by
    decide +kernel
  obtain ⟨state, taken, facts⟩ := map_eq_some_iff.mp summary
  simp only [Prod.mk.injEq] at facts
  obtain ⟨launched, count, key⟩ := facts
  refine ⟨state, by omega, count, key, ?_⟩
  have run : SoundRuns eager 255 Collector.initial [feed .host] state :=
    .step ⟨.inr (.inr (.inl rfl)), taken⟩ (.done _)
  exact inserted_rows_delivered run (by omega) 0 (by omega)

/-- With the output on the device the row of key 1 comes from the scratch buffer of the host. -/
theorem inserted_row_from_scratch : (Collector.initial.step eager 255 (feed .device)).map
      (fun state => (state.handler.launched, state.keys.contents 0, state.data.contents 0)) =
        some (1, 1, 7) ∧
    (fedCacheMap .device).handed.map (fun handed => handed.delivered 0) = some 1 := by
  exact ⟨by decide +kernel, by decide +kernel⟩

end AutoInsertHandler

end EmbedCache
