import EmbedCache.NumpyText

/-! Which `.npy` files `NumpyTensorFileFormat` reads as the arrays that they are.

The reader takes the bytes behind the header in the order in which they come, `row_size` bytes
for a row. It notes the order of the elements and does not look at it again. -/

namespace EmbedCache.Serialization

open Lib NumpyFormat List Nat

namespace NumpyTensorFileFormat

variable {stream after : StreamWrapperBase}

/-! ### The size of a row -/

theorem foldl_mul_mod (dimensions : List Nat) {start : Nat} (small : start < 2 ^ 64) :
    dimensions.foldl (fun size dimension => size * dimension % 2 ^ 64) start =
      start * dimensions.prod % 2 ^ 64 := by
  induction dimensions generalizing start with
  | nil => rw [foldl_nil, prod_nil, Nat.mul_one, Nat.mod_eq_of_lt small]
  | cons dimension dimensions ih =>
    rw [foldl_cons, ih (Nat.mod_lt _ (Nat.two_pow_pos 64)), prod_cons, Nat.mod_mul_mod,
      Nat.mul_assoc]

theorem prod_le_prod_filter (dimensions : List Nat) :
    dimensions.prod ≤ (dimensions.filter (0 < ·)).prod := by
  induction dimensions with
  | nil => exact le_rfl
  | cons dimension dimensions ih =>
    rw [prod_cons]
    rcases Nat.eq_zero_or_pos dimension with zero | positive
    · rw [zero, zero_mul]
      exact Nat.zero_le _
    · rw [filter_cons_of_pos (by simpa using positive), prod_cons]
      exact Nat.mul_le_mul_left dimension ih

theorem rowBytes_lt (array : NpyArray) : array.rowBytes < 2 ^ 64 := by
  have tail : (array.shape.tail.filter (0 < ·)).prod ≤ (array.shape.filter (0 < ·)).prod := by
    cases array.shape with
    | nil => exact le_rfl
    | cons dimension dimensions =>
      rw [tail_cons]
      rcases Nat.eq_zero_or_pos dimension with zero | positive
      · rw [filter_cons_of_neg (by simp [zero])]
      · rw [filter_cons_of_pos (by simpa using positive), prod_cons]
        exact Nat.le_mul_of_pos_left _ positive
  calc array.rowBytes = array.shape.tail.prod * array.dtype.itemSize := rfl
    _ ≤ (array.shape.filter (0 < ·)).prod * array.dtype.itemSize :=
        mul_le_mul_right _ ((prod_le_prod_filter _).trans tail)
    _ < 2 ^ 63 := array.addressable
    _ < 2 ^ 64 := by decide

/-! ### Logical rows -/

inductive Calls (reader : NumpyTensorFileFormat) : Nat → StreamWrapperBase → Prop
  | start : Calls reader 0 reader.stream
  | reset {rows : Nat} {stream : StreamWrapperBase} {after : NumpyTensorFileFormat}
    (before : Calls reader rows stream)
      (returned : reset { reader with stream } = .ok after) : Calls reader 0 after.stream
  | loadBatch {rows fuel batch : Nat} {stream after : StreamWrapperBase} {data loaded : Nat → UInt8}
      (before : Calls reader rows stream)
      (returned : loadBatch reader.rowSizeInBytes fuel batch data stream =
        some (.ok (loaded, after))) :
      Calls reader (rows + batch) after

variable (file : File)

/-- The memory has rows of the array, from row `first` on, each with its elements in C order. -/
def HasRows (array : NpyArray) (offset first batch : Nat) (loaded : Nat → UInt8) : Prop :=
  ∀ i < batch, ∀ index, Within index array.shape.tail → ∀ byte < array.dtype.itemSize,
    loaded (i * array.rowBytes + cPosition array.shape.tail index * array.dtype.itemSize + byte) =
      elementByte file array offset ((first + i) :: index) byte

structure Shows (file : File) (array : NpyArray) (offset : Nat) (reader : NumpyTensorFileFormat) :
    Prop where
  shape : reader.getShape = array.shape
  numRows : ∃ n, array.shape.head? = some n ∧ reader.getNumRows = some n
  rowSize : reader.getRowSizeInBytes = array.rowBytes
  returns : reader.stream.Honest → ∀ rows stream batch data, Calls reader rows stream →
    (∀ n, array.shape.head? = some n → rows + batch ≤ n) →
    ∃ fuel loaded after, loadBatch reader.rowSizeInBytes fuel batch data stream =
      some (.ok (loaded, after))
  rows : ∀ rows stream batch fuel data loaded after, Calls reader rows stream →
    (∀ n, array.shape.head? = some n → rows + batch ≤ n) →
    loadBatch reader.rowSizeInBytes fuel batch data stream = some (.ok (loaded, after)) →
    HasRows file array offset rows batch loaded

/-- Whatever the stream over the file answers: if the reader accepts the file, it is the file of an
array and the reader shows that array. -/
def ReadsWell : Prop :=
  ∀ position stream reader, At file position stream → construct stream = .ok reader →
    ∃ array offset, NpyFile file array offset ∧ Shows file array offset reader

/-- The elements are in C order, or are the same in either order. -/
def OrderFree (array : NpyArray) (offset : Nat) : Prop :=
  array.fortranOrder = false ∨ ∀ index, Within index array.shape → ∀ byte < array.dtype.itemSize,
    elementByte file array offset index byte =
      file.bytes (offset + cPosition array.shape index * array.dtype.itemSize + byte)

/-- Files with a header that the reader takes are files of arrays with a first dimension, in an
order that does not matter. -/
def Readable : Prop :=
  ∀ header offset, HeaderAt file header offset →
    ∃ array, NpyFile file array offset ∧ array.shape ≠ [] ∧ OrderFree file array offset

section Shown

variable {file : File} {array : NpyArray} {offset : Nat} {reader : NumpyTensorFileFormat}
  {position : Nat}

theorem construct_ok (current : At file position stream) (made : construct stream = .ok reader) :
    HeaderAt file reader.header reader.offset ∧ At file reader.offset reader.stream ∧
      reader.rowSizeInBytes = reader.header.shape.tail.prod *
        reader.header.dtypeSizeInBytes % 2 ^ 64 := by
  obtain ⟨⟨header, offset, after⟩, loaded, made⟩ := exists_of_bind_ok made
  obtain ⟨there, now⟩ := loadHeader_ok current loaded
  cases made
  refine ⟨there, now, ?_⟩
  change header.shape.tail.foldl _ 1 * header.dtypeSizeInBytes % 2 ^ 64 = _
  rw [foldl_mul_mod _ (by decide), Nat.one_mul, Nat.mod_mul_mod]

theorem headerAt_unique {header other : NumpyHeader} {offset' : Nat}
    (there : HeaderAt file header offset)
    (again : HeaderAt file other offset') : offset = offset' := by
  obtain ⟨_, _, framed, _⟩ := there.parsed
  obtain ⟨_, _, framed', _⟩ := again.parsed
  exact (framed.unique framed').2

theorem construct_of_honest (current : At file position stream) (honest : stream.Honest)
    {header : NumpyHeader}
    (there : HeaderAt file header offset) :
    ∃ reader, construct stream = .ok reader ∧ reader.stream.Honest := by
  obtain ⟨next, loaded, _, still⟩ := loadHeader_of_honest current honest there
  have made : (construct stream).map NumpyTensorFileFormat.stream = .ok next := by
    rw [construct, loaded]
    rfl
  cases constructed : construct stream with
  | error error =>
    rw [constructed] at made
    cases made
  | ok reader =>
    rw [constructed] at made
    have same : reader.stream = next := Except.ok.inj made
    exact ⟨reader, rfl, same ▸ still⟩

theorem seek_of_reset {next : NumpyTensorFileFormat}
    (returned : reset { reader with stream } = .ok next) :
    stream.seek reader.offset = .ok next.stream := by
  obtain ⟨sought, seek, made⟩ := exists_of_bind_ok returned
  cases made
  exact seek

theorem calls_at (start : At file reader.offset reader.stream) {rows : Nat}
    (calls : Calls reader rows stream) :
    At file (reader.offset + rows * reader.rowSizeInBytes) stream := by
  induction calls with
  | start =>
    rw [zero_mul, Nat.add_zero]
    exact start
  | reset _ returned ih =>
    rw [zero_mul, Nat.add_zero]
    exact seek_ok ih (seek_of_reset returned)
  | @loadBatch rows fuel batch stream after data loaded _ returned ih =>
    have delivered := loadRows_delivered returned
    refine ⟨delivered.contents.trans ih.bytes, delivered.length.trans ih.size, ?_⟩
    rw [delivered.moved, ih.position, Nat.add_mul, Nat.add_assoc]

theorem answer_of_calls {rows : Nat} (calls : Calls reader rows stream) :
    stream.answer = reader.stream.answer := by
  induction calls with
  | start => rfl
  | reset _ returned ih =>
    exact (StreamWrapperBase.contents_of_seek (seek_of_reset returned)).2.2.1.trans ih
  | loadBatch _ returned ih => exact (loadRows_delivered returned).answers.trans ih

structure Fields (file : File) (array : NpyArray) (reader : NumpyTensorFileFormat) : Prop where
  current : At file reader.offset reader.stream
  shape : reader.header.shape = array.shape
  rowSize : reader.rowSizeInBytes = array.rowBytes

theorem fields_of_construct (current : At file position stream)
    (made : construct stream = .ok reader)
    (ofArray : NpyFile file array offset) : Fields file array reader ∧ offset = reader.offset := by
  obtain ⟨there, now, size⟩ := construct_ok current made
  obtain ⟨version, text, framed, parsed⟩ := there.parsed
  obtain ⟨other, written, again, isHeader⟩ := ofArray.framed
  obtain ⟨rfl, same⟩ := again.unique framed
  have header := header_of_headerText isHeader parsed
  rw [header] at size
  refine ⟨⟨now, by rw [header], ?_⟩, same⟩
  rw [size]
  exact Nat.mod_eq_of_lt (rowBytes_lt array)

/-- A row that has been loaded has the bytes that are at its place in C order. -/
theorem loaded_eq (fields : Fields file array reader) {dimension : Nat} {dimensions : List Nat}
    (shapeIs : array.shape = dimension :: dimensions) {rows fuel batch : Nat}
    {data loaded : Nat → UInt8}
    (calls : Calls reader rows stream)
    (returned : loadBatch reader.rowSizeInBytes fuel batch data stream = some (.ok (loaded, after)))
    {i byte : Nat} {index : List Nat} (inside : i < batch) (within : Within index dimensions)
    (small : byte < array.dtype.itemSize) :
    loaded (i * array.rowBytes + cPosition dimensions index * array.dtype.itemSize + byte) =
      file.bytes (reader.offset + cPosition array.shape ((rows + i) :: index) *
        array.dtype.itemSize + byte) := by
  have delivered := loadRows_delivered returned
  have now := calls_at fields.current calls
  have rowIs : array.rowBytes = dimensions.prod *
      array.dtype.itemSize := by rw [NpyArray.rowBytes, shapeIs, tail_cons]
  have inRow : cPosition dimensions index * array.dtype.itemSize + byte < array.rowBytes := by
    have next := mul_le_mul_right array.dtype.itemSize (cPosition_lt within)
    rw [rowIs]
    rw [Nat.succ_mul] at next
    omega
  have inBatch : i * array.rowBytes + cPosition dimensions index * array.dtype.itemSize + byte <
      batch * array.rowBytes := by
    have next := mul_le_mul_right array.rowBytes inside
    rw [Nat.succ_mul] at next
    omega
  rw [fields.rowSize] at delivered now
  have filled := delivered.filled _ inBatch
  rw [zero_mul, Nat.zero_add, now.bytes, now.position] at filled
  rw [filled, shapeIs, cPosition, rowIs]
  congr 1
  ring

theorem shows_of_orderFree (fields : Fields file array reader) (shaped : array.shape ≠ [])
    (whole : reader.offset + array.totalBytes ≤ file.size)
    (free : OrderFree file array reader.offset) :
    Shows file array reader.offset reader := by
  obtain ⟨dimension, dimensions, shapeIs⟩ := exists_cons_of_ne_nil shaped
  have head : array.shape.head? = some dimension := by rw [shapeIs, List.head?_cons]
  refine ⟨fields.shape, ⟨dimension, head, ?_⟩, fields.rowSize, ?_, ?_⟩
  · rw [getNumRows, fields.shape, head]
  · intro honest rows stream batch data calls enough
    have now := calls_at fields.current calls
    have still : stream.Honest := by
      intro call n
      rw [answer_of_calls calls]
      exact honest call n
    have total : array.totalBytes = dimension * array.rowBytes := by
      rw [NpyArray.totalBytes, NpyArray.rowBytes, shapeIs, prod_cons, tail_cons, Nat.mul_assoc]
    have rowsFit : (rows + batch) * array.rowBytes ≤ dimension * array.rowBytes :=
      mul_le_mul_right _ (enough dimension head)
    have room : stream.position + batch * reader.rowSizeInBytes ≤ stream.size := by
      rw [now.position, now.size, fields.rowSize]
      rw [Nat.add_mul] at rowsFit
      omega
    obtain ⟨fuel, result, ended⟩ := exists_loadRows (StreamWrapperBase.willing_of_honest still)
      (show batch * reader.rowSizeInBytes ≤ stream.size - stream.position by omega) data
    cases result with
    | ok loaded => exact ⟨fuel, loaded.1, loaded.2, ended⟩
    | error error => exact absurd ended (loadRows_ne_error still)
  · intro rows stream batch fuel data loaded after calls enough returned i inside index
      within byte small
    have bound := enough dimension head
    rw [shapeIs, tail_cons] at within ⊢
    rw [loaded_eq fields shapeIs calls returned inside within small]
    have full : Within ((rows + i) :: index) array.shape := by
      rw [shapeIs]
      exact .cons (by omega) within
    rcases free with cOrder | same
    · rw [elementByte, NpyArray.position, cOrder]
      rfl
    · exact (same _ full byte small).symm

theorem orderFree_of_shows (fields : Fields file array reader) (honest : reader.stream.Honest)
    (shown : Shows file array reader.offset reader) : OrderFree file array reader.offset := by
  obtain ⟨dimension, head, _⟩ := shown.numRows
  obtain ⟨dimensions, shapeIs⟩ := List.head?_eq_some_iff.mp head
  have enough : ∀ n, array.shape.head? = some n → 0 + dimension ≤ n := by
    intro n same
    rw [head] at same
    cases same
    omega
  obtain ⟨fuel, loaded, after, returned⟩ :=
    shown.returns honest 0 _ dimension (fun _ => 0) .start enough
  have has := shown.rows 0 _ dimension fuel _ loaded after .start enough returned
  refine .inr fun index within byte small => ?_
  rw [shapeIs] at within
  cases within with
  | @cons coordinate _ index _ below within =>
    have tail : Within index array.shape.tail := by rw [shapeIs]; exact within
    have logical := has coordinate below index tail byte small
    have stored := loaded_eq fields shapeIs .start returned below within small
    rw [shapeIs, tail_cons] at logical
    rw [Nat.zero_add] at logical stored
    exact logical.symm.trans stored

theorem readable_of_readsWell (well : ReadsWell file) : Readable file := by
  intro header offset there
  let stream : StreamWrapperBase := ⟨file.bytes, file.size, 0, 0, fun _ n => some n⟩
  have current : At file 0 stream := ⟨rfl, rfl, rfl⟩
  have honest : stream.Honest := fun _ _ => rfl
  obtain ⟨reader, made, still⟩ := construct_of_honest current honest there
  obtain ⟨array, _, ofArray, shown⟩ := well 0 stream reader current made
  obtain ⟨fields, rfl⟩ := fields_of_construct current made ofArray
  obtain rfl := headerAt_unique there (construct_ok current made).1
  obtain ⟨n, head, _⟩ := shown.numRows
  refine ⟨array, ofArray, ?_, orderFree_of_shows fields still shown⟩
  intro empty
  rw [empty] at head
  cases head

theorem readsWell_of_readable (readable : Readable file) : ReadsWell file := by
  intro position stream reader current made
  have there := (construct_ok current made).1
  obtain ⟨array, ofArray, shaped, free⟩ := readable _ _ there
  have fields := (fields_of_construct current made ofArray).1
  exact ⟨array, reader.offset, ofArray, shows_of_orderFree fields shaped ofArray.complete free⟩

end Shown

/-- The reader reads a file well exactly if it does not take its header, or the file is that of an
array with a first dimension in C order, or in Fortran order with the same bytes. -/
theorem reads_well_iff (file : File) : ReadsWell file ↔ Readable file :=
  ⟨readable_of_readsWell, readsWell_of_readable⟩

/-! ### Files that are not read well -/

def fileOf (text : String) (elements : List UInt8) : File :=
  let bytes := magic ++ [1, 0, UInt8.ofNat text.length, UInt8.ofNat (text.length / 256)] ++
    text.toList.map (fun letter => UInt8.ofNat letter.toNat) ++ elements
  ⟨fun i => bytes.getD i 0, bytes.length⟩

def fortranText : String := "\x7b'descr': '<i4', 'fortran_order': True, 'shape': (2, 2)\x7d"

def fortranFile : File := fileOf fortranText [1, 0, 0, 0, 2, 0, 0, 0, 3, 0, 0, 0, 4, 0, 0, 0]

def fortranArray : NpyArray := ⟨.i4, true, [2, 2], by decide⟩

/-- No dictionary, and a dimension that is no number. -/
def laxText : String := "'descr': '<i4', shape': (x, 2), fortran_order': False"

def laxFile : File := fileOf laxText []

theorem fortran_framed : Framed fortranFile .one fortranText.toList 66 :=
  ⟨by decide +kernel,
    by decide +kernel, by decide +kernel, by decide +kernel, by decide +kernel, by decide +kernel⟩

theorem fortran_parsed : parseHeader fortranText.toList = .ok ⟨4, [2, 2], true⟩ := by decide +kernel

theorem fortran_headerAt : HeaderAt fortranFile ⟨4, [2, 2], true⟩ 66 :=
  ⟨.one, _, fortran_framed, fortran_parsed⟩

theorem lax_framed : Framed laxFile .one laxText.toList 63 :=
  ⟨by decide +kernel,
    by decide +kernel, by decide +kernel, by decide +kernel, by decide +kernel, by decide +kernel⟩

theorem lax_headerAt : HeaderAt laxFile ⟨4, [2], false⟩ 63 :=
  ⟨.one, _, lax_framed, by decide +kernel⟩

theorem blank_nil : Blank [] := nofun

theorem blank_space : Blank [' '] := by
  intro letter member
  rw [mem_singleton.mp member]
  exact mem_cons_self

theorem fortran_headerText : HeaderText fortranArray fortranText.toList := by
  have descr : Item "descr".toList (DescrValue fortranArray.dtype) _ :=
    .mk blank_nil .single blank_nil blank_space (.mk .single) blank_nil
  have order : Item "fortran_order".toList (· = flagName fortranArray.fortranOrder) _ :=
    .mk blank_space .single blank_nil blank_space rfl blank_nil
  have elements : Elements fortranArray.shape _ :=
    .more 2 blank_nil blank_nil (.last 2 blank_space blank_nil)
  have shape : Item "shape".toList (TupleValue fortranArray.shape) _ :=
    .mk blank_space .single blank_nil blank_space (.elements elements (by decide)) blank_nil
  have written := HeaderText.mk blank_nil descr order shape (.refl _) .none blank_nil
  convert written using 1
  decide

theorem brace_mem {array : NpyArray} {text : List Char} (written : HeaderText array text) :
    '\x7b' ∈ text := by
  cases written
  simp

/-- A Fortran file whose rows come out wrong, and a file that is of no array and is taken all the
same. -/
theorem fortran_order_ignored :
    NpyFile fortranFile fortranArray 66 ∧ ¬ ReadsWell fortranFile ∧
      (¬ ∃ array offset, NpyFile laxFile array offset) ∧ ¬ ReadsWell laxFile := by
  have lax : ¬ ∃ array offset, NpyFile laxFile array offset := by
    intro ⟨array, offset, ofArray⟩
    obtain ⟨_, text, framed, written⟩ := ofArray.framed
    obtain ⟨rfl, _⟩ := framed.unique lax_framed
    exact absurd (brace_mem written) (by decide)
  refine ⟨⟨⟨.one, _, fortran_framed, fortran_headerText⟩, by decide⟩, fun well => ?_, lax,
    fun well => ?_⟩
  · obtain ⟨array, ofArray, _, free⟩ := readable_of_readsWell well _ _ fortran_headerAt
    obtain ⟨_, text, framed, written⟩ := ofArray.framed
    obtain ⟨rfl, _⟩ := framed.unique fortran_framed
    obtain ⟨sizeIs, shapeIs, orderIs⟩ :=
      NumpyHeader.mk.inj (header_of_headerText written fortran_parsed)
    rcases free with cOrder | same
    · rw [cOrder] at orderIs
      cases orderIs
    · have within : Within [0, 1] array.shape := by
        rw [← shapeIs]
        exact .cons (by decide) (.cons (by decide) .nil)
      have equal := same [0, 1] within 0 (by rw [← sizeIs]; decide)
      rw [elementByte, NpyArray.position, ← orderIs, ← shapeIs, ← sizeIs] at equal
      exact absurd equal (by decide +kernel)
  · obtain ⟨array, ofArray, _⟩ := readable_of_readsWell well _ _ lax_headerAt
    exact lax ⟨array, _, ofArray⟩

end NumpyTensorFileFormat

end EmbedCache.Serialization
