import EmbedCache.Serialization

/-! What has been written to an `.nve` file is loaded back.

The file is a header and a chain of entries, each followed by the bytes of its tensor
and naming the position of the next one. -/

namespace EmbedCache.Serialization

open Lib List

theorem length_numberBytes (size : Nat) (x : BitVec (8 * size)) :
    (numberBytes size x).length = size := by
  simp [numberBytes]

theorem getD_numberBytes {size : Nat} (x : BitVec (8 * size)) {i : Nat} (bound : i < size)
    (default : UInt8) :
    (numberBytes size x).getD i default = littleEndian x.toNat i := by
  rw [getD_eq_getElem?_getD, List.getElem?_eq_getElem (by rwa [length_numberBytes])]
  simp [numberBytes]

/-! ### Honest streams -/

namespace StreamWrapperBase

variable {stream : StreamWrapperBase} (honest : stream.Honest)

include honest

theorem Honest.seek (offset : Nat) :
    stream.seek offset = .ok { stream with position := offset, calls := stream.calls + 1 } := by
  simp only [StreamWrapperBase.seek, honest stream.calls 0]

theorem Honest.read {n : Nat} (room : stream.position + n ≤ stream.size) :
    stream.read n = .ok (readRange stream.bytes stream.position n,
      { stream with position := stream.position + n, calls := stream.calls + 1 }) := by
  have whole : stream.count n n = n := by
    simp only [count]
    omega
  simp only [StreamWrapperBase.read, honest stream.calls n, whole]

theorem Honest.write (data : List UInt8) :
    stream.write data = .ok { stream with
      bytes := blit stream.bytes stream.position data.length fun i => data.getD i 0
      size := max stream.size (stream.position + data.length)
      position := stream.position + data.length
      calls := stream.calls + 1 } := by
  simp only [StreamWrapperBase.write, honest stream.calls data.length]

end StreamWrapperBase

theorem received_readRange (old : Nat → UInt8) (bytes : Nat → UInt8) {position n i : Nat}
    (bound : i < n) :
    received old (readRange bytes position n) i = bytes (position + i) := by
  have inside : i < (readRange bytes position n).length := by rwa [readRange_length]
  rw [received, getD_eq_getElem?_getD, List.getElem?_eq_getElem inside]
  simp [readRange]

namespace TensorFileFormat

/-! ### Packed dimensions -/

theorem InLimits.packDimensions_toNat {tensor : TensorWrapper} (limits : InLimits tensor) :
    (packDimensions tensor).toNat =
      tensor.col.toNat + tensor.elementSizeInBytes.toNat * 2 ^ 16 + tensor.row.toNat * 2 ^ 20 := by
  have col : tensor.col.toNat < 2 ^ 16 := limits.col
  have row : tensor.row.toNat < 2 ^ 44 := limits.row
  have elementSize : tensor.elementSizeInBytes.toNat < 2 ^ 4 := limits.elementSize
  have low : tensor.col.toNat ||| tensor.elementSizeInBytes.toNat * 2 ^ 16 =
      tensor.col.toNat + tensor.elementSizeInBytes.toNat * 2 ^ 16 := by
    rw [Nat.or_comm, Nat.mul_comm, ← Nat.two_pow_add_eq_or_of_lt col]
    omega
  have fields : tensor.col.toNat + tensor.elementSizeInBytes.toNat * 2 ^ 16 < 2 ^ 20 := by omega
  simp only [packDimensions, rowSizeBits, dataTypeBits, BitVec.toNat_or, BitVec.toNat_shiftLeft,
    Nat.shiftLeft_eq]
  rw [Nat.mod_eq_of_lt (by omega), Nat.mod_eq_of_lt (by omega), low, Nat.or_comm,
    Nat.mul_comm tensor.row.toNat,
    ← Nat.two_pow_add_eq_or_of_lt fields]
  omega

/-- Within the limits the fields of the packed word do not overlap. -/
theorem packDimensions_injective {one two : TensorWrapper} (first : InLimits one)
    (second : InLimits two)
    (same : packDimensions one = packDimensions two) :
    one.row = two.row ∧ one.col = two.col ∧ one.elementSizeInBytes = two.elementSizeInBytes := by
  have words := congrArg BitVec.toNat same
  rw [first.packDimensions_toNat, second.packDimensions_toNat] at words
  have col : one.col.toNat < 2 ^ 16 := first.col
  have otherCol : two.col.toNat < 2 ^ 16 := second.col
  have elementSize : one.elementSizeInBytes.toNat < 2 ^ 4 := first.elementSize
  have otherElementSize : two.elementSizeInBytes.toNat < 2 ^ 4 := second.elementSize
  refine ⟨BitVec.eq_of_toNat_eq ?_, BitVec.eq_of_toNat_eq ?_, BitVec.eq_of_toNat_eq ?_⟩ <;> omega

theorem InLimits.getKey {tensor : TensorWrapper} (limits : InLimits tensor) (name : BitVec 64) :
    getKey name tensor = .ok ⟨packDimensions tensor, name⟩ := by
  simp only [TensorFileFormat.getKey, limits.col, limits.row, limits.elementSize,
    not_true, if_false]

/-! ### Entries in memory -/

open TableEntry

theorem TableEntry.length_bytes (entry : TableEntry) : entry.bytes.length = entrySize := by
  simp only [bytes, length_append, length_numberBytes, entrySize]

theorem TableEntry.ofMemory_bytes (entry : TableEntry) {memory : Nat → UInt8}
    (same : ∀ i < entrySize, memory i = entry.bytes.getD i 0) : ofMemory memory = entry := by
  have field : ∀ (before : List UInt8) (x : BitVec 64) (rest : List UInt8),
      entry.bytes = before ++ (numberBytes 8 x ++ rest) →
        ofLittleEndian 8 (fun i => memory (before.length + i)) = x := by
    intro before x rest split
    have length := entry.length_bytes
    rw [split, length_append, length_append, length_numberBytes] at length
    apply ofLittleEndian_littleEndian
    intro i bound
    have inside : i < (numberBytes 8 x).length := by rwa [length_numberBytes]
    rw [same _ (by omega), split, getD_eq_getElem?_getD, List.getElem?_append_right (by omega),
      Nat.add_sub_cancel_left, List.getElem?_append_left inside, ← getD_eq_getElem?_getD,
        getD_numberBytes _ bound]
  have parts : entry.bytes = numberBytes 8 entry.key.key1 ++ (numberBytes 8 entry.key.key2 ++
      (numberBytes 8 entry.offset ++ numberBytes 8 entry.length)) := by
    simp only [bytes, append_assoc]
  have key1 := field [] entry.key.key1 _ parts
  have key2 := field (numberBytes 8 entry.key.key1) entry.key.key2 _ parts
  have offset := field (numberBytes 8 entry.key.key1 ++ numberBytes 8 entry.key.key2) entry.offset _
    (by rw [parts, append_assoc])
  have length :=
    field (numberBytes 8 entry.key.key1 ++
      (numberBytes 8 entry.key.key2 ++ numberBytes 8 entry.offset))
    entry.length [] (by rw [parts, append_nil, append_assoc, append_assoc])
  simp only [length_append, length_numberBytes, length_nil, Nat.zero_add] at key1 key2 offset length
  simp only [ofMemory, key2, offset, length]
  exact congrArg (fun word => (⟨⟨word, entry.key.key2⟩, entry.offset, entry.length⟩ : TableEntry))
    key1

/-! ### Writing -/

def writeTensors (stream : StreamWrapperBase) :
    List (BitVec 64 × TensorWrapper) → Except SerializationError StreamWrapperBase
  | [] => .ok stream
  | tensor :: rest => do
      let stream ← writeTensorToStream stream tensor.1 tensor.2
      writeTensors stream rest

def writeFile (stream : StreamWrapperBase) (tensors : List (BitVec 64 × TensorWrapper)) :
    Except SerializationError StreamWrapperBase := do
  let stream ← writeTableFileHeader stream
  writeTensors stream tensors

def entryAt (position : Nat) (tensor : BitVec 64 × TensorWrapper) : TableEntry where
  key := ⟨packDimensions tensor.2, tensor.1⟩
  offset := tensor.2.sz + BitVec.ofNat 64 entrySize + BitVec.ofNat 64 position
  length := tensor.2.sz

def chainSize (tensors : List (BitVec 64 × TensorWrapper)) : Nat :=
  (tensors.map fun tensor => entrySize + tensor.2.sz.toNat).sum

/-- From a position on the bytes are the entries and contents of the tensors. -/
def Chain (bytes : Nat → UInt8) : Nat → List (BitVec 64 × TensorWrapper) → Prop
  | _, [] => True
  | position, tensor :: rest =>
    readRange bytes position entrySize = (entryAt position tensor).bytes ∧
    readRange bytes (position + entrySize) tensor.2.sz.toNat =
      readRange tensor.2.data 0 tensor.2.sz.toNat ∧
    Chain bytes (position + entrySize + tensor.2.sz.toNat) rest

structure Grown (before after : StreamWrapperBase) (amount : Nat) : Prop where
  answer : after.answer = before.answer
  position : after.position = before.position + amount
  size : after.position ≤ after.size
  kept : ∀ i < before.position, after.bytes i = before.bytes i

theorem Grown.trans {first second third : StreamWrapperBase} {one two : Nat}
    (left : Grown first second one)
    (right : Grown second third two) : Grown first third (one + two) where
  answer := right.answer.trans left.answer
  position := by rw [right.position, left.position, Nat.add_assoc]
  size := right.size
  kept := fun i below => by
    rw [right.kept i (by have := left.position; omega), left.kept i below]

variable {before after : StreamWrapperBase}

theorem Grown.honest {amount : Nat} (grown : Grown before after amount) (honest : before.Honest) :
    after.Honest := by
  intro call n
  rw [grown.answer]
  exact honest call n

theorem Grown.readRange_kept {amount address n : Nat} (grown : Grown before after amount)
    (below : address + n ≤ before.position) :
    readRange after.bytes address n = readRange before.bytes address n :=
  readRange_congr _ _ _ _ _ fun offset inside => grown.kept _ (by omega)

variable {stream : StreamWrapperBase}

theorem exists_written (honest : stream.Honest) (data : List UInt8) :
    ∃ after, stream.write data = .ok after ∧ Grown stream after data.length ∧
      readRange after.bytes stream.position data.length = data := by
  have kept : ∀ i < stream.position,
      blit stream.bytes stream.position data.length (fun i => data.getD i 0) i = stream.bytes i :=
    fun i below => blit_outside _ _ _ _ _ (.inl below)
  refine ⟨_, honest.write data, ⟨rfl, rfl, le_max_right _ _, kept⟩, ?_⟩
  exact (readRange_blit_same ..).trans (readRange_getD ..)

variable {tensor : BitVec 64 × TensorWrapper}

theorem exists_tensor_written (honest : stream.Honest)
    (limits : InLimits tensor.2) :
    ∃ after, writeTensorToStream stream tensor.1 tensor.2 = .ok after ∧
      Grown stream after (entrySize + tensor.2.sz.toNat) ∧
      readRange after.bytes stream.position entrySize = (entryAt stream.position tensor).bytes ∧
      readRange after.bytes (stream.position + entrySize) tensor.2.sz.toNat =
        readRange tensor.2.data 0 tensor.2.sz.toNat := by
  obtain ⟨middle, entryWritten, entryGrown, entryThere⟩ :=
    exists_written honest (entryAt stream.position tensor).bytes
  obtain ⟨after, dataWritten, dataGrown, dataThere⟩ :=
    exists_written (entryGrown.honest honest) (readRange tensor.2.data 0 tensor.2.sz.toNat)
  rw [length_bytes] at entryGrown entryThere
  rw [readRange_length] at dataGrown dataThere
  refine ⟨after, ?_, entryGrown.trans dataGrown, ?_, ?_⟩
  · simp only [writeTensorToStream, limits.getKey, entryAt] at entryWritten ⊢
    simp only [bind, Except.bind, entryWritten, dataWritten]
  · rw [dataGrown.readRange_kept (by rw [entryGrown.position]), entryThere]
  · rw [← entryGrown.position]
    exact dataThere

variable {tensors : List (BitVec 64 × TensorWrapper)}

/-- Tensors written one after another form a chain from the position on. -/
theorem exists_chain_written (honest : stream.Honest)
    (limits : ∀ tensor ∈ tensors, InLimits tensor.2)
    (inside : stream.position ≤ stream.size) :
    ∃ after, writeTensors stream tensors = .ok after ∧ Grown stream after (chainSize tensors) ∧
      Chain after.bytes stream.position tensors := by
  induction tensors generalizing stream with
  | nil => exact ⟨stream, rfl, ⟨rfl, rfl, inside, fun _ _ => rfl⟩, trivial⟩
  | cons tensor rest ih =>
    obtain ⟨middle, written, grown, entryThere, dataThere⟩ :=
      exists_tensor_written honest (limits tensor mem_cons_self)
    obtain ⟨after, restWritten, restGrown, chain⟩ := ih (grown.honest honest)
      (fun other member => limits other (mem_cons_of_mem _ member)) grown.size
    refine ⟨after, ?_, grown.trans restGrown, ?_, ?_, ?_⟩
    · simp only [writeTensors, bind, Except.bind, written, restWritten]
    · rw [restGrown.readRange_kept (by rw [grown.position]; omega), entryThere]
    · rw [restGrown.readRange_kept (by rw [grown.position]; omega), dataThere]
    · rw [grown.position, ← Nat.add_assoc] at chain
      exact chain

/-! ### Loading -/

structure Behind (bytes : Nat → UInt8) (size position : Nat) (visit : Visit) : Prop where
  honest : visit.stream.Honest
  contents : visit.stream.bytes = bytes
  length : visit.stream.size = size
  here : visit.stream.position = position + entrySize
  bytesRead : visit.bytesRead = entrySize
  entry : ∀ i < entrySize, visit.entry i = bytes (position + i)

variable {bytes : Nat → UInt8} {visit : Visit}

theorem Behind.entry_eq {size position : Nat} (behind : Behind bytes size position visit)
    (there : readRange bytes position entrySize = (entryAt position tensor).bytes) :
    ofMemory visit.entry = entryAt position tensor := by
  apply ofMemory_bytes
  intro i bound
  rw [behind.entry i bound, ← there, ← received_readRange (fun _ => 0) bytes bound]
  rfl

variable {position : Nat}

theorem behind_of_read (honest : stream.Honest) (old : Nat → UInt8)
    (here : stream.position = position)
    (room : position + entrySize ≤ stream.size) :
    ∃ data after, stream.read entrySize = .ok (data, after) ∧
      Behind stream.bytes stream.size position ⟨received old data, data.length, after⟩ := by
  subst here
  refine ⟨_, _, honest.read room, honest, rfl, rfl, rfl, readRange_length _ _ _, fun i bound => ?_⟩
  exact received_readRange old stream.bytes bound

theorem offset_toNat (fits : position + entrySize + tensor.2.sz.toNat < 2 ^ 64) :
    (entryAt position tensor).offset.toNat = position + entrySize + tensor.2.sz.toNat := by
  simp only [entryAt, entrySize, BitVec.toNat_add, BitVec.toNat_ofNat] at fits ⊢
  omega

theorem Behind.loadTurn_again {size position offset : Nat}
    (behind : Behind bytes size position visit)
    {name : BitVec 64} (other : (ofMemory visit.entry).key.key2 ≠ name)
    (leads : (ofMemory visit.entry).offset.toNat = offset) (room : offset + entrySize ≤ size)
    (target : TensorWrapper) :
    ∃ next, loadTurn name target visit = .again next ∧ Behind bytes size offset next := by
  have some : ¬ visit.bytesRead = 0 := by rw [behind.bytesRead]; decide
  have complete : ¬ visit.bytesRead ≠ entrySize := not_not.mpr behind.bytesRead
  have seek := behind.honest.seek offset
  generalize sought :
    ({ visit.stream with
    position := offset, calls := visit.stream.calls + 1 } : StreamWrapperBase) =
    stream at seek
  have contents : stream.bytes = bytes := by rw [← sought, ← behind.contents]
  have length : stream.size = size := by rw [← sought, ← behind.length]
  have honest : stream.Honest := by
    rw [← sought]
    exact behind.honest
  obtain ⟨data, after, read, next⟩ := behind_of_read honest visit.entry
    (show stream.position = offset by rw [← sought]) (by rw [length]; exact room)
  rw [contents, length] at next
  refine ⟨_, ?_, next⟩
  rw [loadTurn, if_neg some, if_neg complete, if_neg other]
  simp only [nextEntry, bind, Except.bind, pure, Except.pure, leads, seek, read]

section Turns

variable {bytes : Nat → UInt8} {size position : Nat} {visit : Visit}
  (behind : Behind bytes size position visit)
  {tensor : BitVec 64 × TensorWrapper}
  (entryThere : readRange bytes position entrySize = (entryAt position tensor).bytes)

include behind entryThere

theorem loadTurn_found (room : position + entrySize + tensor.2.sz.toNat ≤ size)
    {target : TensorWrapper}
    (sameSize : target.sz = tensor.2.sz) :
    ∃ after, loadTurn tensor.1 target visit =
      .leave (.ok (received target.data (readRange bytes (position + entrySize) tensor.2.sz.toNat),
        after)) := by
  have entry := behind.entry_eq entryThere
  have some : ¬ visit.bytesRead = 0 := by rw [behind.bytesRead]; decide
  have complete : ¬ visit.bytesRead ≠ entrySize := not_not.mpr behind.bytesRead
  obtain ⟨after, read⟩ : ∃ after, visit.stream.read tensor.2.sz.toNat =
      .ok (readRange bytes (position + entrySize) tensor.2.sz.toNat, after) := by
    have fits : visit.stream.position + tensor.2.sz.toNat ≤ visit.stream.size := by
      rw [behind.here, behind.length]
      exact room
    rw [← behind.contents, ← behind.here]
    exact ⟨_, behind.honest.read fits⟩
  have found : loadFound target visit =
      .ok (received target.data (readRange bytes (position + entrySize)
      tensor.2.sz.toNat), after) := by
    simp only [loadFound, entry, entryAt, sameSize, ne_eq, not_true, if_false, bind, Except.bind,
      pure, Except.pure,
      read, readRange_length]
  refine ⟨after, ?_⟩
  rw [loadTurn, if_neg some, if_neg complete, entry,
    if_pos (show (entryAt position tensor).key.key2 = tensor.1 from rfl),
    found]

theorem loadTurn_next {name : BitVec 64} (other : tensor.1 ≠ name)
    (room : position + entrySize + tensor.2.sz.toNat + entrySize ≤ size)
    (fits : position + entrySize + tensor.2.sz.toNat < 2 ^ 64) (target : TensorWrapper) :
    ∃ next, loadTurn name target visit = .again next ∧
      Behind bytes size (position + entrySize + tensor.2.sz.toNat) next := by
  have entry := behind.entry_eq entryThere
  refine behind.loadTurn_again ?_ ?_ room target
  · rw [entry]
    exact other
  · rw [entry]
    exact offset_toNat fits

end Turns

theorem Chain.leaves {size position : Nat} (chain : Chain bytes position tensors)
    (names : (tensors.map Prod.fst).Nodup)
    (room : position + chainSize tensors ≤ size) (fits : position + chainSize tensors < 2 ^ 64)
    {wanted : BitVec 64 × TensorWrapper} (member : wanted ∈ tensors) {target : TensorWrapper}
    (sameSize : target.sz = wanted.2.sz) (behind : Behind bytes size position visit) :
    ∃ loaded after, Leaves (loadTurn wanted.1 target) visit (.ok (loaded, after)) ∧
      ∀ i < wanted.2.sz.toNat, loaded i = wanted.2.data i := by
  induction tensors generalizing position visit with
  | nil => exact absurd member not_mem_nil
  | cons tensor rest ih =>
    have total : chainSize (tensor :: rest) = entrySize + tensor.2.sz.toNat + chainSize rest := by
      simp [chainSize]
    obtain ⟨entryThere, dataThere, later⟩ := chain
    rw [map_cons, nodup_cons] at names
    rcases mem_cons.mp member with rfl | inRest
    · obtain ⟨after, left⟩ := loadTurn_found behind entryThere (by omega) sameSize
      refine ⟨_, after, .now left, fun i bound => ?_⟩
      rw [dataThere, received_readRange _ _ bound, Nat.zero_add]
    · have other : tensor.1 ≠ wanted.1 := fun same =>
        names.1 (same ▸ mem_map.mpr ⟨wanted, inRest, rfl⟩)
      -- the rest is not empty, so there is an entry behind the bytes
      have another : entrySize ≤ chainSize rest := by
        cases rest with
        | nil => exact absurd inRest not_mem_nil
        | cons head tail =>
          simp only [chainSize, map_cons, sum_cons]
          omega
      obtain ⟨next, goes, behindNext⟩ :=
        loadTurn_next behind entryThere other (by omega) (by omega) target
      obtain ⟨loaded, last, leaves, bytesEqual⟩ :=
        ih later names.2 (by omega) (by omega) inRest behindNext
      exact ⟨loaded, last, .later goes leaves, bytesEqual⟩

theorem numberBytes_read {size : Nat} (x : BitVec (8 * size))
    (there : readRange bytes position size = numberBytes size x) (old : Nat → UInt8) :
    ofLittleEndian size (received old (readRange bytes position size)) = x := by
  apply ofLittleEndian_littleEndian
  intro i bound
  rw [there, received, getD_numberBytes x bound]

/-- The header as `write_table_file_header` leaves it. -/
structure Header (bytes : Nat → UInt8) : Prop where
  magic : readRange bytes 0 4 = numberBytes 4 magicNumber
  major : readRange bytes 4 4 = numberBytes 4 versionMajor
  minor : readRange bytes 8 4 = numberBytes 4 versionMinor

def headerSize : Nat := 12

variable {stream : StreamWrapperBase}

theorem exists_header_written (honest : stream.Honest) :
    ∃ after, writeTableFileHeader stream = .ok after ∧ after.Honest ∧ after.position = headerSize ∧
      after.position ≤ after.size ∧ Header after.bytes := by
  have start :
      ({ stream with position := 0, calls := stream.calls + 1 } : StreamWrapperBase).Honest :=
      honest
  obtain ⟨first, wroteMagic, grownMagic, magic⟩ := exists_written start (numberBytes 4 magicNumber)
  obtain ⟨second, wroteMajor, grownMajor, major⟩ :=
    exists_written (grownMagic.honest start) (numberBytes 4 versionMajor)
  obtain ⟨third, wroteMinor, grownMinor, minor⟩ :=
    exists_written (grownMajor.honest (grownMagic.honest start)) (numberBytes 4 versionMinor)
  rw [length_numberBytes] at grownMagic grownMajor grownMinor magic major minor
  have secondPosition : first.position = 4 := grownMagic.position
  have thirdPosition : second.position = 8 := by rw [grownMajor.position, secondPosition]
  refine ⟨third, ?_, grownMinor.honest (grownMajor.honest (grownMagic.honest start)), ?_,
    grownMinor.size, ?_⟩
  · simp only [writeTableFileHeader, honest.seek, bind, Except.bind, wroteMagic,
      wroteMajor, wroteMinor]
  · rw [grownMinor.position, thirdPosition, headerSize]
  · refine ⟨?_, ?_, ?_⟩
    · rw [grownMinor.readRange_kept (by omega), grownMajor.readRange_kept (by omega)]
      exact magic
    · rw [grownMinor.readRange_kept (by omega)]
      rwa [secondPosition] at major
    · rwa [thirdPosition] at minor

theorem exists_verified (honest : stream.Honest) (header : Header stream.bytes)
    (room : headerSize ≤ stream.size) (junk : Uninitialized) :
    ∃ after, verifyTableHeader junk stream = .ok (true, after) ∧ after.Honest ∧
      after.bytes = stream.bytes ∧
      after.size = stream.size ∧ after.position = headerSize := by
  have sized : 12 ≤ stream.size := room
  let streamAt (position calls : Nat) : StreamWrapperBase :=
    { stream with position := position, calls := calls }
  have reads : ∀ position calls, position + 4 ≤ 12 →
      (streamAt position calls).read 4 =
        .ok (readRange stream.bytes position 4, streamAt (position + 4) (calls + 1)) := by
    intro position calls inside
    have here : (streamAt position calls).Honest := honest
    exact here.read (show position + 4 ≤ stream.size by omega)
  have seek : stream.seek 0 = .ok (streamAt 0 (stream.calls + 1)) := honest.seek 0
  refine ⟨streamAt 12 (stream.calls + 4), ?_, honest, rfl, rfl, rfl⟩
  simp only [verifyTableHeader, seek, bind, Except.bind, reads 0 _ (by omega), Nat.zero_add,
    reads 4 _ (by omega),
    reads 8 _ (by omega), pure, Except.pure, numberBytes_read _ header.magic,
      numberBytes_read _ header.major,
    numberBytes_read _ header.minor, BEq.rfl, Bool.and_self, Nat.add_assoc, Nat.reduceAdd]

theorem exists_first_entry (honest : stream.Honest) (header : Header stream.bytes)
    (room : headerSize + entrySize ≤ stream.size) (junk : Uninitialized) :
    ∃ visit, firstEntry junk stream = .ok visit ∧
      Behind stream.bytes stream.size headerSize visit := by
  obtain ⟨verified, verify, there, contents, length, position⟩ :=
    exists_verified honest header ((Nat.le_add_right _ _).trans room) junk
  obtain ⟨data, after, read, behind⟩ :=
    behind_of_read there (fun _ => 0) position (by rw [length]; exact room)
  rw [contents, length] at behind
  refine ⟨_, ?_, behind⟩
  simp only [firstEntry, verify, bind, Except.bind, read, not_true, if_false, pure, Except.pure]

/-- Three tensors of different shapes, the second of them empty. -/
def threeTensors : List (BitVec 64 × TensorWrapper) :=
  [(7, ⟨fun i => UInt8.ofNat i, 2, 3, 4⟩), (9, ⟨fun _ => 1, 0, 5, 2⟩),
    (11, ⟨fun i => UInt8.ofNat (100 + i), 1, 4, 2⟩)]

def emptyStream : StreamWrapperBase := ⟨fun _ => 0, 0, 0, 0, fun _ n => some n⟩

theorem threeTensors_inLimits : ∀ tensor ∈ threeTensors, InLimits tensor.2 := by
  intro tensor member
  simp only [threeTensors, mem_cons, not_mem_nil, or_false] at member
  rcases member with rfl | rfl | rfl <;> exact ⟨by decide, by decide, by decide⟩

/-- What has been written is loaded back under its name, and packed dimensions are told apart. -/
theorem tensor_file_round_trip (stream : StreamWrapperBase) (honest : stream.Honest)
    (tensors : List (BitVec 64 × TensorWrapper)) (names : (tensors.map Prod.fst).Nodup)
    (limits : ∀ tensor ∈ tensors, InLimits tensor.2)
    (fits : headerSize + chainSize tensors < 2 ^ 64) :
    (∃ written, writeFile stream tensors = .ok written ∧
      ∀ tensor ∈ tensors, ∀ target : TensorWrapper,
      target.sz = tensor.2.sz → ∀ junk, ∃ fuel loaded after,
        loadTensorFromStream junk fuel written tensor.1 target = some (.ok (loaded, after)) ∧
        ∀ i < tensor.2.sz.toNat, loaded i = tensor.2.data i) ∧
    ∀ one two : TensorWrapper, InLimits one → InLimits two →
      packDimensions one = packDimensions two →
      one.row = two.row ∧ one.col = two.col ∧ one.elementSizeInBytes = two.elementSizeInBytes := by
  refine ⟨?_, fun one two first second same => packDimensions_injective first second same⟩
  obtain ⟨begun, headerWritten, begunHonest, begunPosition, begunSize, header⟩ :=
    exists_header_written honest
  obtain ⟨written, tensorsWritten, grown, chain⟩ :=
    exists_chain_written begunHonest limits begunSize
  have end_ : written.position = headerSize +
      chainSize tensors := by rw [grown.position, begunPosition]
  rw [begunPosition] at chain
  have kept : Header written.bytes := by
    refine ⟨?_, ?_, ?_⟩
    · rw [grown.readRange_kept (by rw [begunPosition]; decide), header.magic]
    · rw [grown.readRange_kept (by rw [begunPosition]; decide), header.major]
    · rw [grown.readRange_kept (by rw [begunPosition]; decide), header.minor]
  refine ⟨written, by simp only [writeFile, headerWritten, bind, Except.bind, tensorsWritten], ?_⟩
  intro tensor member target sameSize junk
  have size := grown.size
  have some : entrySize ≤ chainSize tensors := by
    have one := single_le_sum (l := tensors.map fun tensor => entrySize + tensor.2.sz.toNat)
      (fun _ _ => Nat.zero_le _) _ (mem_map.mpr ⟨tensor, member, rfl⟩)
    exact (Nat.le_add_right _ _).trans one
  obtain ⟨visit, first, behind⟩ :=
    exists_first_entry (grown.honest begunHonest) kept (by omega) junk
  obtain ⟨loaded, after, leaves, bytesEqual⟩ :=
    chain.leaves names (by omega) fits member sameSize behind
  obtain ⟨fuel, ended⟩ := leaves.exists_fuel
  exact ⟨fuel, loaded, after, by simp only [loadTensorFromStream, first, ended], bytesEqual⟩

theorem tensor_file_round_trip_three :
    ∃ written, writeFile emptyStream threeTensors = .ok written ∧
      (∀ junk, ∃ fuel loaded after,
        loadTensorFromStream junk fuel written 7 ⟨fun _ => 0, 4, 6, 1⟩ =
          some (.ok (loaded, after)) ∧
        ∀ i < 24, loaded i = UInt8.ofNat i) ∧
      ∀ junk, ∃ fuel loaded after,
        loadTensorFromStream junk fuel written 11 ⟨fun _ => 0, 2, 4, 1⟩ =
          some (.ok (loaded, after)) ∧
        ∀ i < 8, loaded i = UInt8.ofNat (100 + i) := by
  obtain ⟨written, wrote, load⟩ :=
    (tensor_file_round_trip emptyStream (fun _ _ => rfl) threeTensors (by decide)
    threeTensors_inLimits (by decide)).1
  have last : (11, ⟨fun i => UInt8.ofNat (100 + i), 1, 4, 2⟩) ∈ threeTensors :=
    mem_cons_of_mem _ (mem_cons_of_mem _ mem_cons_self)
  exact ⟨written, wrote, load _ mem_cons_self ⟨fun _ => 0, 4, 6, 1⟩ (by decide),
    load _ last ⟨fun _ => 0, 2, 4, 1⟩ (by decide)⟩

end TensorFileFormat

end EmbedCache.Serialization
