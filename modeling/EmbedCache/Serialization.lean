import EmbedCache.Lib.Bytes
import EmbedCache.Lib.LittleEndian
import EmbedCache.Lib.Loop

/-! Tensor files (`serialization.cpp`): streams, the `.nve` format, and the loops that load rows.

A stream behind `StreamWrapperBase` has contents and a position; how many of the bytes
asked for a call gets, and whether it throws, is up to the stream. A failed `NVE_CHECK_`
throws its text. -/

namespace EmbedCache.Serialization

open Lib

inductive SerializationError
  | stream
  | check (text : String)
  deriving DecidableEq, Repr

/-- `answer` tells for every call in turn, and the bytes it is about, whether the call throws and
how many bytes it gets at most. -/
structure StreamWrapperBase where
  bytes : Nat → UInt8
  size : Nat
  position : Nat
  calls : Nat
  answer : Nat → Nat → Option Nat

namespace StreamWrapperBase

variable (stream : StreamWrapperBase)

/-- Every call succeeds and reads get what there is. -/
def Honest : Prop := ∀ call n, stream.answer call n = some n

def seek (offset : Nat) : Except SerializationError StreamWrapperBase :=
  match stream.answer stream.calls 0 with
  | none => .error .stream
  | some _ => .ok { stream with position := offset, calls := stream.calls + 1 }

def count (n atMost : Nat) : Nat := min atMost (min n (stream.size - stream.position))

def read (n : Nat) : Except SerializationError (List UInt8 × StreamWrapperBase) :=
  match stream.answer stream.calls n with
  | none => .error .stream
  | some atMost => .ok (readRange stream.bytes stream.position (stream.count n atMost),
      { stream with
        position := stream.position + stream.count n atMost, calls := stream.calls + 1 })

def write (data : List UInt8) : Except SerializationError StreamWrapperBase :=
  match stream.answer stream.calls data.length with
  | none => .error .stream
  | some _ => .ok { stream with
      bytes := blit stream.bytes stream.position data.length fun i => data.getD i 0
      size := max stream.size (stream.position + data.length)
      position := stream.position + data.length
      calls := stream.calls + 1 }

end StreamWrapperBase

/-- A read into memory that holds `old`: what the read did not get stays. -/
def received (old : Nat → UInt8) (data : List UInt8) : Nat → UInt8 := fun i => data.getD i (old i)

def numberBytes (size : Nat) (x : BitVec (8 * size)) : List UInt8 :=
  (List.range size).map (littleEndian x.toNat)

structure TensorWrapper where
  data : Nat → UInt8
  row : BitVec 64
  col : BitVec 64
  elementSizeInBytes : BitVec 64

variable (tensor : TensorWrapper)

/-- The product of the dimensions as it is computed, in `uint64_t`. -/
def TensorWrapper.sz : BitVec 64 := tensor.row * tensor.col * tensor.elementSizeInBytes

namespace TensorFileFormat

def magicNumber : BitVec 32 := 0x4e564500
def versionMajor : BitVec 32 := 0
def versionMinor : BitVec 32 := 2

def rowSizeBits : Nat := 16
def dataTypeBits : Nat := 4
def rowsBits : Nat := 64 - (rowSizeBits + dataTypeBits)

structure TableKey where
  key1 : BitVec 64
  key2 : BitVec 64

structure TableEntry where
  key : TableKey
  offset : BitVec 64
  length : BitVec 64

/-- `sizeof(TableEntry)`. -/
def entrySize : Nat := 32

def TableEntry.bytes (entry : TableEntry) : List UInt8 :=
  numberBytes 8 entry.key.key1 ++ numberBytes 8 entry.key.key2 ++ numberBytes 8 entry.offset ++
    numberBytes 8 entry.length

def TableEntry.ofMemory (memory : Nat → UInt8) : TableEntry where
  key := ⟨ofLittleEndian 8 memory, ofLittleEndian 8 fun i => memory (8 + i)⟩
  offset := ofLittleEndian 8 fun i => memory (16 + i)
  length := ofLittleEndian 8 fun i => memory (24 + i)

def writeTableFileHeader (stream : StreamWrapperBase) :
    Except SerializationError StreamWrapperBase := do
  let stream ← stream.seek 0
  let stream ← stream.write (numberBytes 4 magicNumber)
  let stream ← stream.write (numberBytes 4 versionMajor)
  stream.write (numberBytes 4 versionMinor)

/-- What the three local variables of `verify_table_header` hold before they are read into. -/
structure Uninitialized where
  magicNumber : Nat → UInt8
  versionMajor : Nat → UInt8
  versionMinor : Nat → UInt8

variable (junk : Uninitialized)

/-- `verify_table_header`; it does not look at how much the reads got. -/
def verifyTableHeader (stream : StreamWrapperBase) :
    Except SerializationError (Bool × StreamWrapperBase) := do
  let stream ← stream.seek 0
  let (magic, stream) ← stream.read 4
  let (major, stream) ← stream.read 4
  let (minor, stream) ← stream.read 4
  return (ofLittleEndian 4 (received junk.magicNumber magic) == magicNumber &&
    ofLittleEndian 4 (received junk.versionMajor major) == versionMajor &&
    ofLittleEndian 4 (received junk.versionMinor minor) == versionMinor, stream)

def packDimensions : BitVec 64 :=
  tensor.col ||| tensor.elementSizeInBytes <<< rowSizeBits ||| tensor.row <<<
    (rowSizeBits + dataTypeBits)

/-- The limits that `get_key` checks. -/
structure InLimits (tensor : TensorWrapper) : Prop where
  col : tensor.col.toNat < 2 ^ rowSizeBits
  row : tensor.row.toNat < 2 ^ rowsBits
  elementSize : tensor.elementSizeInBytes.toNat < 2 ^ dataTypeBits

def getKey (name : BitVec 64) (tensor : TensorWrapper) : Except SerializationError TableKey :=
  if ¬ tensor.col.toNat < 2 ^ rowSizeBits then .error (.check "nve support max 16 bit row size")
  else if ¬ tensor.row.toNat < 2 ^ rowsBits then .error (.check "nve support max 44 bit rows")
  else if ¬ tensor.elementSizeInBytes.toNat < 2 ^ dataTypeBits then
    .error (.check "nve support max 2 bit data type")
  else .ok ⟨packDimensions tensor, name⟩

def writeTensorToStream (stream : StreamWrapperBase) (name : BitVec 64) (tensor : TensorWrapper) :
    Except SerializationError StreamWrapperBase := do
  let key ← getKey name tensor
  let entry : TableEntry :=
    ⟨key, tensor.sz + BitVec.ofNat 64 entrySize + BitVec.ofNat 64 stream.position, tensor.sz⟩
  let stream ← stream.write entry.bytes
  stream.write (readRange tensor.data 0 tensor.sz.toNat)

structure Visit where
  entry : Nat → UInt8
  bytesRead : Nat
  stream : StreamWrapperBase

abbrev Loaded := (Nat → UInt8) × StreamWrapperBase

def loadFound (visit : Visit) : Except SerializationError Loaded := do
  let entry := TableEntry.ofMemory visit.entry
  if entry.length ≠ tensor.sz then throw (.check "Incorrect tensor size")
  let (data, stream) ← visit.stream.read entry.length.toNat
  if data.length ≠ entry.length.toNat then throw (.check "Problem reading tensor")
  return (received tensor.data data, stream)

def nextEntry (visit : Visit) : Except SerializationError Visit := do
  let stream ← visit.stream.seek (TableEntry.ofMemory visit.entry).offset.toNat
  let (data, stream) ← stream.read entrySize
  return ⟨received visit.entry data, data.length, stream⟩

def loadTurn (name : BitVec 64) (tensor : TensorWrapper) (visit : Visit) :
    Turn Visit (Except SerializationError Loaded) :=
  if visit.bytesRead = 0 then .leave (.ok (tensor.data, visit.stream))
  else if visit.bytesRead ≠ entrySize then .leave (.error (.check "Problem reading table entry"))
  else if (TableEntry.ofMemory visit.entry).key.key2 = name then .leave (loadFound tensor visit)
  else
    match nextEntry visit with
    | .error error => .leave (.error error)
    | .ok next => .again next

/-- The first entry; the fields of `TableEntry` start as zero. -/
def firstEntry (stream : StreamWrapperBase) : Except SerializationError Visit := do
  let (verified, stream) ← verifyTableHeader junk stream
  if ¬ verified then throw (.check "Incorrect file version")
  let (data, stream) ← stream.read entrySize
  return ⟨received (fun _ => 0) data, data.length, stream⟩

/-- `load_tensor_from_stream`, at most `fuel` turns of its loop. -/
def loadTensorFromStream (fuel : Nat) (stream : StreamWrapperBase) (name : BitVec 64)
    (tensor : TensorWrapper) :
    Option (Except SerializationError Loaded) :=
  match firstEntry junk stream with
  | .error error => some (.error error)
  | .ok visit => loop (loadTurn name tensor) fuel visit

end TensorFileFormat

/-! ### Rows -/

structure Filling where
  readBytes : Nat
  data : Nat → UInt8
  stream : StreamWrapperBase

def fillTurn (base total : Nat) (filling : Filling) :
    Turn Filling (Except SerializationError TensorFileFormat.Loaded) :=
  if filling.readBytes < total then
    match filling.stream.read (total - filling.readBytes) with
    | .error error => .leave (.error error)
    | .ok (data, stream) => .again
        ⟨filling.readBytes + data.length,
          blit filling.data (base + filling.readBytes) data.length fun i => data.getD i 0, stream⟩
  else .leave (.ok (filling.data, filling.stream))

/-- `while (read_bytes < total)` at `data + base`. -/
def fill (base total fuel : Nat) (data : Nat → UInt8) (stream : StreamWrapperBase) :
    Option (Except SerializationError TensorFileFormat.Loaded) :=
  loop (fillTurn base total) fuel ⟨0, data, stream⟩

/-- `NumpyTensorFileFormat::load_batch`: row by row, from row `first` on. -/
def NumpyTensorFileFormat.loadRows (rowSizeInBytes fuel : Nat) :
    (first batch : Nat) → (Nat → UInt8) → StreamWrapperBase →
      Option (Except SerializationError TensorFileFormat.Loaded)
  | _, 0, data, stream => some (.ok (data, stream))
  | first, batch + 1, data, stream =>
    match fill (first * rowSizeInBytes) rowSizeInBytes fuel data stream with
    | none => none
    | some (.error error) => some (.error error)
    | some (.ok loaded) => loadRows rowSizeInBytes fuel (first + 1) batch loaded.1 loaded.2

def NumpyTensorFileFormat.loadBatch (rowSizeInBytes fuel batch : Nat) (data : Nat → UInt8)
    (stream : StreamWrapperBase) :
    Option (Except SerializationError TensorFileFormat.Loaded) :=
  loadRows rowSizeInBytes fuel 0 batch data stream

/-- `BinaryTensorFileFormat::load_batch`; `batch * row_size_` is a `uint64_t`. -/
def BinaryTensorFileFormat.loadBatch (rowSize fuel batch : Nat) (data : Nat → UInt8)
    (stream : StreamWrapperBase) :
    Option (Except SerializationError TensorFileFormat.Loaded) :=
  fill 0 (batch * rowSize % 2 ^ 64) fuel data stream

end EmbedCache.Serialization
