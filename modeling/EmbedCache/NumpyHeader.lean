import EmbedCache.NumpyFormat
import EmbedCache.StreamLoading

/-! `NumpyTensorFileFormat` (`serialization.cpp`): the header of a `.npy` file, as the reader takes
it.

The header text is searched with three regular expressions, whose leftmost matches count;
the dimensions are the pieces of the shape that `std::stoul` reads, the other pieces are
logged and skipped. -/

namespace EmbedCache.Serialization

open Lib Lib.TextSearch

structure NumpyHeader where
  dtypeSizeInBytes : Nat
  shape : List Nat
  fortranOrder : Bool
  deriving DecidableEq, Repr

structure NumpyTensorFileFormat where
  stream : StreamWrapperBase
  header : NumpyHeader
  vecSize : Nat
  rowSizeInBytes : Nat
  offset : Nat

namespace NumpyTensorFileFormat

def npyMagicNumber : List UInt8 := [0x93, 0x4e, 0x55, 0x4d, 0x50, 0x59]

/-- `isspace` in the C locale. -/
def isSpace (letter : Char) : Bool := letter == ' ' || ('\t' ≤ letter && letter ≤ '\r')

def sign : List Char → Bool × List Char
  | [] => (false, [])
  | first :: rest => if first = '-' then (true, rest) else if first = '+' then (false, rest)
    else (false, first :: rest)

variable (text : List Char)

/-- `std::stoul`: white space, a sign, digits; anything may follow. A minus negates the number in
`unsigned long`. -/
def stoul : Option Nat :=
  let (negative, rest) := sign (text.dropWhile isSpace)
  let digits := rest.takeWhile Char.isDigit
  let n := Nat.ofDigitChars 10 digits 0
  if digits = [] ∨ 2 ^ 64 ≤ n then none else some (if negative then (2 ^ 64 - n) % 2 ^ 64 else n)

/-- `'descr': '([^']+)'`. -/
def descrRegex : Option (List Char) :=
  (captureUntil "'descr': '".toList '\'' text).filter (!·.isEmpty)

/-- `shape': \(([^)]*)\)`. -/
def shapeRegex : List Char → Option (List Char) := captureUntil "shape': (".toList ')'

/-- `fortran_order': (False|True)`. -/
def fortranOrderRegex : Option Bool :=
  (text.dropPrefix? "fortran_order': ".toList).bind fun rest =>
    if "False".toList.isPrefixOf rest then some false
    else if "True".toList.isPrefixOf rest then some true
    else none

def dtypeSize (dtype : List Char) : Except SerializationError Nat :=
  if dtype = "<f4".toList then .ok 4
  else if dtype = "<f8".toList then .ok 8
  else if dtype = "<i4".toList then .ok 4
  else if dtype = "<i8".toList then .ok 8
  else .error (.check "Unsupported data type")

def found {α : Type*} (result : Option α) : Except SerializationError α :=
  match result with
  | none => .error (.check "Incorrect file format")
  | some result => .ok result

/-- The part of `load_header` that works on the header text. -/
def parseHeader : Except SerializationError NumpyHeader := do
  let dtype ← found (search descrRegex text)
  let size ← dtypeSize dtype
  let shape ← found (search shapeRegex text)
  let fortranOrder ← found (search fortranOrderRegex text)
  return ⟨size, (pieces ',' shape).filterMap stoul, fortranOrder⟩

/-- A read of `n` bytes and the check that it got them. -/
def readChecked (n : Nat) (text : String) (stream : StreamWrapperBase) :
    Except SerializationError (List UInt8 × StreamWrapperBase) := do
  let (data, stream) ← stream.read n
  if data.length ≠ n then throw (.check text)
  return (data, stream)

/-- Format 1.0 has two bytes of header length, format 2.0 has four. -/
def headerLenSizeInBytes (major minor : UInt8) : Except SerializationError Nat :=
  if major = 1 ∧ minor = 0 then .ok 2
  else if major = 2 ∧ minor = 0 then .ok 4
  else .error (.check "Unsupported numpy version")

/-- `header_len` starts as zero; the bytes read replace its low bytes. -/
def headerLen (data : List UInt8) : Nat := (ofLittleEndian 4 (received (fun _ => 0) data)).toNat

def checkMagic (magic : List UInt8) : Except SerializationError Unit :=
  if magic = npyMagicNumber then .ok () else .error (.check "Incorrect file format")

def located (header : NumpyHeader) (headerLen size : Nat) (stream : StreamWrapperBase) :
    Except SerializationError (NumpyHeader × Nat × StreamWrapperBase) :=
  if stream.position = headerLen + 6 + 1 + 1 + size then .ok (header, stream.position, stream)
  else .error (.check "Problem reading numpy header")

def loadHeader (stream : StreamWrapperBase) :
    Except SerializationError (NumpyHeader × Nat × StreamWrapperBase) := do
  let stream ← stream.seek 0
  let (magic, stream) ← readChecked 6 "Problem reading numpy magic number" stream
  checkMagic magic
  let (major, stream) ← readChecked 1 "Problem reading numpy major version" stream
  let (minor, stream) ← readChecked 1 "Problem reading numpy minor version" stream
  let size ← headerLenSizeInBytes (major.getD 0 0) (minor.getD 0 0)
  let (length, stream) ← readChecked size "Problem reading numpy header length" stream
  let (text, stream) ← readChecked (headerLen length) "Problem reading numpy header" stream
  let header ← parseHeader (NumpyFormat.letters text)
  located header (headerLen length) size stream

/-- The constructor; the products are computed in `uint64_t`. -/
def construct (stream : StreamWrapperBase) : Except SerializationError NumpyTensorFileFormat := do
  let (header, offset, stream) ← loadHeader stream
  let vecSize := header.shape.tail.foldl (fun size dimension => size * dimension % 2 ^ 64) 1
  return ⟨stream, header, vecSize, vecSize * header.dtypeSizeInBytes % 2 ^ 64, offset⟩

variable (reader : NumpyTensorFileFormat)

def getShape : List Nat := reader.header.shape

/-- `get_num_rows` reads the first dimension, without looking whether there is one. -/
def getNumRows : Option Nat := reader.header.shape.head?

def getRowSizeInBytes : Nat := reader.rowSizeInBytes

def reset : Except SerializationError NumpyTensorFileFormat := do
  let stream ← reader.stream.seek reader.offset
  return { reader with stream }

/-! ### What is in front of the elements -/

section Prefixed

open NumpyFormat

variable {file : File} {stream after : StreamWrapperBase} {position : Nat}

structure At (file : File) (position : Nat) (stream : StreamWrapperBase) : Prop where
  bytes : stream.bytes = file.bytes
  size : stream.size = file.size
  position : stream.position = position

theorem seek_ok (current : At file position stream) {offset : Nat}
    (sought : stream.seek offset = .ok after) :
    At file offset after := by
  unfold StreamWrapperBase.seek at sought
  split at sought
  · cases sought
  · cases sought
    exact ⟨current.bytes, current.size, rfl⟩

theorem readChecked_ok (current : At file position stream) {n : Nat} {text : String}
    {data : List UInt8}
    (read : readChecked n text stream = .ok (data, after)) :
    data = readRange file.bytes position n ∧ n ≤ file.size - position ∧
      At file (position + n) after := by
  obtain ⟨⟨got, next⟩, answered, rest⟩ := exists_of_bind_ok read
  have complete : got.length = n := by
    by_contra short
    simp [short, throw, throwThe, MonadExceptOf.throw, bind, Except.bind] at rest
  have facts := StreamWrapperBase.got_of_read answered
  have same : (got, next) = (data, after) := by
    simpa [complete, pure, Except.pure, bind, Except.bind] using rest
  cases same
  rw [← current.bytes, ← current.size, ← current.position, ← complete]
  refine ⟨?_, facts.available, facts.contents.trans current.bytes, facts.length.trans current.size,
    facts.moved⟩
  apply List.ext_getElem (readRange_length _ _ _).symm
  intro i small _
  have byte := facts.bytes i small 0
  rw [List.getD_eq_getElem?_getD, List.getElem?_eq_getElem small, Option.getD_some] at byte
  simp only [byte, readRange, List.getElem_map, List.getElem_range]

theorem readChecked_of_honest (current : At file position stream) (honest : stream.Honest) {n : Nat}
    (available : position + n ≤ file.size) (text : String) :
    ∃ next, readChecked n text stream = .ok (readRange file.bytes position n, next) ∧
      At file (position + n) next ∧ next.Honest := by
  rw [← current.bytes, ← current.position]
  have room :
      stream.position + n ≤ stream.size := by rw [current.position, current.size]; exact available
  refine ⟨{ stream with position := stream.position + n, calls := stream.calls + 1 }, ?_,
    ⟨current.bytes, current.size, rfl⟩, honest⟩
  rw [readChecked, honest.read room]
  simp [readRange_length, pure, Except.pure, bind, Except.bind]

theorem headerLenSizeInBytes_ok {major minor : UInt8} {size : Nat}
    (known : headerLenSizeInBytes major minor = .ok size) :
    ∃ version : Version, major = version.number ∧ minor = 0 ∧ size = version.lengthBytes := by
  rw [headerLenSizeInBytes] at known
  split at known
  · rename_i one
    cases known
    exact ⟨.one, one.1, one.2, rfl⟩
  · split at known
    · rename_i two
      cases known
      exact ⟨.two, two.1, two.2, rfl⟩
    · cases known

theorem headerLen_readRange (file : File) (version : Version) :
    headerLen (readRange file.bytes 8 version.lengthBytes) = headerLength file version := by
  have short : version.lengthBytes ≤ 4 := by cases version <;> decide
  apply toNat_ofLittleEndian_extend short
  · intro i inside
    simp [received, readRange, inside]
  · intro i beyond
    simp [received, readRange, beyond]

structure HeaderAt (file : File) (header : NumpyHeader) (offset : Nat) : Prop where
  parsed : ∃ version text, Framed file version text offset ∧ parseHeader text = .ok header

theorem checkMagic_ok {magic : List UInt8} {done : Unit} (right : checkMagic magic = .ok done) :
    magic = npyMagicNumber := by
  rw [checkMagic] at right
  split at right
  · assumption
  · cases right

/-- The reader accepts a file only by what is in front of its elements, whatever the stream
answers. -/
theorem loadHeader_ok (current : At file position stream) {header : NumpyHeader} {offset : Nat}
    (loaded : loadHeader stream = .ok (header, offset, after)) :
      HeaderAt file header offset ∧ At file offset after := by
  obtain ⟨start, sought, loaded⟩ := exists_of_bind_ok loaded
  obtain ⟨⟨magic, one⟩, readMagic, loaded⟩ := exists_of_bind_ok loaded
  obtain ⟨_, rightMagic, loaded⟩ := exists_of_bind_ok loaded
  obtain ⟨⟨major, two⟩, readMajor, loaded⟩ := exists_of_bind_ok loaded
  obtain ⟨⟨minor, three⟩, readMinor, loaded⟩ := exists_of_bind_ok loaded
  obtain ⟨size, known, loaded⟩ := exists_of_bind_ok loaded
  obtain ⟨⟨length, four⟩, readLength, loaded⟩ := exists_of_bind_ok loaded
  obtain ⟨⟨text, five⟩, readText, loaded⟩ := exists_of_bind_ok loaded
  obtain ⟨header, parsed, there⟩ := exists_of_bind_ok loaded
  rw [located] at there
  split at there <;> cases there
  obtain ⟨rfl, -, atOne⟩ := readChecked_ok (seek_ok current sought) readMagic
  obtain ⟨rfl, -, atTwo⟩ := readChecked_ok atOne readMajor
  obtain ⟨rfl, -, atThree⟩ := readChecked_ok atTwo readMinor
  obtain ⟨rfl, lengthThere, atFour⟩ := readChecked_ok atThree readLength
  obtain ⟨rfl, textThere, atFive⟩ := readChecked_ok atFour readText
  obtain ⟨version, isMajor, isMinor, rfl⟩ := headerLenSizeInBytes_ok known
  have lengthIs := headerLen_readRange file version
  have some : 0 < version.lengthBytes := by cases version <;> decide
  simp only [Nat.zero_add, Nat.reduceAdd, lengthIs] at *
  refine ⟨⟨version, _, ⟨checkMagic_ok rightMagic, isMajor, isMinor, rfl, atFive.position, ?_⟩,
    parsed⟩,
    atFive.bytes, atFive.size, rfl⟩
  rw [atFive.position]
  omega

/-- On a stream that gives what it has, the reader takes every header that it can parse. -/
theorem loadHeader_of_honest (current : At file position stream) (honest : stream.Honest)
    {header : NumpyHeader}
    {offset : Nat} (there : HeaderAt file header offset) :
    ∃ next, loadHeader stream = .ok (header, offset, next) ∧ At file offset next ∧ next.Honest := by
  obtain ⟨version, text, framed, parsed⟩ := there.parsed
  have whole := framed.complete
  rw [framed.elements] at whole
  have start : At file 0 { stream with position := 0, calls := stream.calls + 1 } :=
    ⟨current.bytes, current.size, rfl⟩
  obtain ⟨one, readMagic, atOne, honestOne⟩ :=
    readChecked_of_honest start honest (n := 6) (by omega) "Problem reading numpy magic number"
  obtain ⟨two, readMajor, atTwo, honestTwo⟩ :=
    readChecked_of_honest atOne honestOne (n := 1) (by omega) "Problem reading numpy major version"
  obtain ⟨three, readMinor, atThree, honestThree⟩ :=
    readChecked_of_honest atTwo honestTwo (n := 1) (by omega) "Problem reading numpy minor version"
  obtain ⟨four, readLength, atFour, honestFour⟩ :=
    readChecked_of_honest atThree honestThree (n :=
      version.lengthBytes) (by omega) "Problem reading numpy header length"
  obtain ⟨five, readText, atFive, honestFive⟩ :=
    readChecked_of_honest atFour honestFour (n :=
      headerLength file version) (by omega) "Problem reading numpy header"
  have right : checkMagic (readRange file.bytes 0 6) = .ok () := by
    rw [framed.magic]
    rfl
  have known : headerLenSizeInBytes ((readRange file.bytes 6 1).getD 0 0)
      ((readRange file.bytes 7 1).getD 0 0) =
      .ok version.lengthBytes := by
    change headerLenSizeInBytes (file.bytes 6) (file.bytes 7) = _
    rw [framed.major, framed.minor]
    cases version <;> rfl
  have placed : located header (headerLength file version) version.lengthBytes five =
      .ok (header, offset, five) := by
    rw [located, atFive.position, framed.elements, if_pos (by omega)]
  rw [framed.header] at parsed
  simp only [Nat.zero_add, Nat.reduceAdd] at readMagic readMajor readMinor readLength readText
  refine ⟨five, ?_, ⟨atFive.bytes, atFive.size, ?_⟩, honestFive⟩
  · simp only [loadHeader, honest.seek, bind, Except.bind, readMagic, right, readMajor, readMinor,
      known, readLength,
      headerLen_readRange file version, readText, parsed, placed]
  · rw [atFive.position, framed.elements]

end Prefixed

end NumpyTensorFileFormat

end EmbedCache.Serialization
