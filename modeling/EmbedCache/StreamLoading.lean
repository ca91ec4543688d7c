import EmbedCache.TensorFile

/-! Loading from any stream: when the loops of `serialization.cpp` end, and what they have then
filled.

The offsets and the counts come from the stream, so nothing bounds the loops. Whether they end, and
end with a filled destination, is decided by the bytes that are left and by the chain of offsets. -/

namespace EmbedCache.Serialization

open Lib List

theorem exists_of_bind_ok {ε α β : Type*} {first : Except ε α} {rest : α → Except ε β} {result : β}
    (ended : first.bind rest = .ok result) :
      ∃ middle, first = .ok middle ∧ rest middle = .ok result := by
  cases first with
  | error => cases ended
  | ok middle => exact ⟨middle, rfl, ended⟩

namespace StreamWrapperBase

variable {stream after : StreamWrapperBase} {n : Nat} {data : List UInt8}

/-- A read that asks for something gets some of it while there is any, or throws. -/
def Willing (answer : Nat → Nat → Option Nat) : Prop := ∀ call n, 0 < n → answer call n ≠ some 0

/-- A read gets all there is, or throws. -/
def Full (answer : Nat → Nat → Option Nat) : Prop :=
  ∀ call n, answer call n = some n ∨ answer call n = none

def answering (stream : StreamWrapperBase) (answer : Nat → Nat → Option Nat) : StreamWrapperBase :=
  { stream with answer := answer }

theorem full_of_honest (honest : stream.Honest) :
    Full stream.answer := fun call n => .inl (honest call n)

theorem willing_of_honest (honest : stream.Honest) : Willing stream.answer := by
  intro call n some none
  rw [honest call n, Option.some.injEq] at none
  omega

structure Got (stream : StreamWrapperBase) (n : Nat) (data : List UInt8)
    (after : StreamWrapperBase) : Prop where
  contents : after.bytes = stream.bytes
  length : after.size = stream.size
  answers : after.answer = stream.answer
  moved : after.position = stream.position + data.length
  bytes : ∀ i, i < data.length → ∀ other, data.getD i other = stream.bytes (stream.position + i)
  requested : data.length ≤ n
  available : data.length ≤ stream.size - stream.position
  full : Full stream.answer → data.length = min n (stream.size - stream.position)
  willing : Willing stream.answer → 0 < n → 0 < stream.size - stream.position → 0 < data.length

theorem got_of_read (read : stream.read n = .ok (data, after)) : stream.Got n data after := by
  unfold StreamWrapperBase.read at read
  split at read
  · exact absurd read (by simp)
  · rename_i atMost answered
    simp only [Except.ok.injEq, Prod.mk.injEq] at read
    obtain ⟨rfl, rfl⟩ := read
    refine ⟨rfl, rfl,
      rfl, by simp [readRange], fun i small other => ?_, ?_, ?_, fun full => ?_,
      fun willing some left => ?_⟩
      <;> simp only [readRange, length_map, length_range, count] at *
    · simp [small]
    · omega
    · omega
    · rcases full stream.calls n with same | none
      · cases same.symm.trans answered
        omega
      · cases none.symm.trans answered
    · have given : atMost ≠ 0 := fun zero => willing stream.calls n some (zero ▸ answered)
      omega

theorem exists_read (honest : stream.Honest) (n : Nat) :
    ∃ data after, stream.read n = .ok (data, after) ∧ after.Honest := by
  have read : stream.read n = .ok (readRange stream.bytes stream.position (stream.count n n),
      { stream with
        position := stream.position + stream.count n n, calls := stream.calls + 1 }) := by
    simp only [StreamWrapperBase.read, honest stream.calls n]
  exact ⟨_, _, read, honest⟩

theorem not_honest_of_read {error : SerializationError} (thrown : stream.read n = .error error) :
    ¬ stream.Honest := by
  intro honest
  simp [StreamWrapperBase.read, honest _ _] at thrown

theorem contents_of_seek {offset : Nat} (sought : stream.seek offset = .ok after) :
    after.bytes = stream.bytes ∧ after.size = stream.size ∧ after.answer = stream.answer ∧
      after.position = offset := by
  unfold seek at sought
  split at sought
  · exact absurd sought (by simp)
  · simp only [Except.ok.injEq] at sought
    exact sought ▸ ⟨rfl, rfl, rfl, rfl⟩

end StreamWrapperBase

open StreamWrapperBase (Full Willing)

structure FilledFrom (bytes : Nat → UInt8) (size position total base : Nat) (loaded : Nat → UInt8) :
    Prop where
  available : total ≤ size - position
  filled : ∀ i, i < total → loaded (base + i) = bytes (position + i)

namespace TensorFileFormat

section Chain

variable (bytes : Nat → UInt8) (size : Nat) (name : BitVec 64)

def entryIn (position : Nat) : TableEntry := .ofMemory fun i => bytes (position + i)

def Named (position : Nat) : Prop := position + entrySize ≤ size ∧
    (entryIn bytes position).key.key2 = name

def CutShort (position : Nat) : Prop := position < size ∧ size < position + entrySize

/-- A complete entry of another name leads to its offset. -/
def LeadsTo (position next : Nat) : Prop :=
  position + entrySize ≤ size ∧ (entryIn bytes position).key.key2 ≠ name ∧
    (entryIn bytes position).offset.toNat = next

abbrev OffsetChain : Nat → Nat → Prop := Relation.ReflTransGen (LeadsTo bytes size name)

/-- Along the offsets there is at last an entry with the name or one that is cut short, but not to
nothing. -/
def Decided (start : Nat) : Prop := ∃ position, OffsetChain bytes size name start position ∧
  (CutShort size position ∨ Named bytes size name position)

/-- A word of the header as it is read: what is missing in the stream stays as it was. -/
def headerWord (old : Nat → UInt8) (position : Nat) : BitVec 32 :=
  ofLittleEndian 4 fun i => if position + i < size then bytes (position + i) else old i

def HeaderRight (junk : Uninitialized) : Prop :=
  headerWord bytes size junk.magicNumber 0 = magicNumber ∧
    headerWord bytes size junk.versionMajor 4 = versionMajor ∧
    headerWord bytes size junk.versionMinor 8 = versionMinor

end Chain

variable {bytes : Nat → UInt8} {size position : Nat} {name : BitVec 64} {tensor : TensorWrapper}
  {visit : Visit}
  {stream after : StreamWrapperBase}

/-- The visit has read what there is of the entry at `position`. -/
structure Arrived (bytes : Nat → UInt8) (size position : Nat) (visit : Visit) : Prop where
  full : Full visit.stream.answer
  contents : visit.stream.bytes = bytes
  length : visit.stream.size = size
  bytesRead : visit.bytesRead = min entrySize (size - position)
  here : position + entrySize ≤ size → visit.stream.position = position + entrySize
  entry : position + entrySize ≤ size → ∀ i < entrySize, visit.entry i = bytes (position + i)

theorem arrived_of_read (full : Full stream.answer) {data : List UInt8}
    (read : stream.read entrySize = .ok (data, after))
    (near : stream.position = position ∨ stream.size ≤ stream.position ∧ stream.size ≤ position)
    (old : Nat → UInt8) :
    Arrived stream.bytes stream.size position ⟨received old data, data.length, after⟩ := by
  have got := StreamWrapperBase.got_of_read read
  have length := got.full full
  have positive : 0 < entrySize := by decide
  refine ⟨got.answers ▸ full, got.contents, got.length, ?_, fun complete => ?_,
    fun complete i inside => ?_⟩
  · show data.length = _
    omega
  · show after.position = _
    rw [got.moved]
    omega
  · show data.getD i (old i) = _
    rw [got.bytes i (by omega)]
    congr 1
    omega

theorem ofMemory_congr {first second : Nat → UInt8} (same : ∀ i < entrySize, first i = second i) :
    TableEntry.ofMemory first = .ofMemory second := by
  simp only [entrySize] at same
  simp only [TableEntry.ofMemory, TableEntry.mk.injEq, TableKey.mk.injEq]
  refine ⟨⟨?_, ?_⟩, ?_, ?_⟩ <;> exact ofLittleEndian_congr fun i inside => same _ (by omega)

theorem Arrived.entry_eq (arrived : Arrived bytes size position visit)
    (complete : position + entrySize ≤ size) :
    TableEntry.ofMemory visit.entry = entryIn bytes position :=
  ofMemory_congr (arrived.entry complete)

theorem loadFound_filled {loaded : Nat → UInt8}
    (found : loadFound tensor visit = .ok (loaded, after)) :
    FilledFrom visit.stream.bytes visit.stream.size visit.stream.position tensor.sz.toNat 0
      loaded := by
  simp only [loadFound, bind, Except.bind, pure, Except.pure, throw, throwThe,
    MonadExceptOf.throw] at found
  split at found
  · exact absurd found (by simp)
  · rename_i size
    split at found
    · exact absurd found (by simp)
    · rename_i read readIs
      split at found
      · exact absurd found (by simp)
      · rename_i complete
        have got := StreamWrapperBase.got_of_read readIs
        have total : read.1.length = tensor.sz.toNat := by
          rw [← not_not.mp size]
          exact not_not.mp complete
        cases found
        refine ⟨total ▸ got.available, fun i small => ?_⟩
        rw [received, Nat.zero_add]
        exact got.bytes i (total ▸ small) _

/-- A turn of the loop, by the entry it looks at. -/
theorem Arrived.loadTurn_cases (arrived : Arrived bytes size position visit) (name : BitVec 64)
    (tensor : TensorWrapper) :
    size ≤ position ∧ loadTurn name tensor visit = .leave (.ok (tensor.data, visit.stream)) ∨
    CutShort size position ∧ loadTurn name tensor visit =
      .leave (.error (.check "Problem reading table entry")) ∨
    Named bytes size name position ∧ loadTurn name tensor visit = .leave (loadFound tensor visit) ∨
    ¬ visit.stream.Honest ∧ (∃ error, loadTurn name tensor visit = .leave (.error error)) ∨
    ∃ next goal, loadTurn name tensor visit = .again next ∧ LeadsTo bytes size name position goal ∧
      Arrived bytes size goal next ∧ next.stream.answer = visit.stream.answer := by
  have length := arrived.bytesRead
  have positive : 0 < entrySize := by decide
  unfold loadTurn
  by_cases none : visit.bytesRead = 0
  · exact .inl ⟨by omega, if_pos none⟩
  rw [if_neg none]
  by_cases complete : position + entrySize ≤ size
  swap
  · exact .inr (.inl ⟨⟨by omega, by omega⟩, if_pos (by omega)⟩)
  rw [if_neg (by omega), arrived.entry_eq complete]
  by_cases named : (entryIn bytes position).key.key2 = name
  · exact .inr (.inr (.inl ⟨⟨complete, named⟩, if_pos named⟩))
  rw [if_neg named, nextEntry, arrived.entry_eq complete]
  refine .inr (.inr (.inr ?_))
  cases seek : visit.stream.seek (entryIn bytes position).offset.toNat with
  | error error =>
    refine .inl ⟨fun honest => ?_, error, rfl⟩
    rw [honest.seek] at seek
    cases seek
  | ok sought =>
    obtain ⟨contents, sameSize, answers, there⟩ := StreamWrapperBase.contents_of_seek seek
    cases read : sought.read entrySize with
    | error error =>
      refine .inl ⟨fun honest => StreamWrapperBase.not_honest_of_read read ?_, error, ?_⟩
      · exact fun call n => answers ▸ honest call n
      · simp only [bind, Except.bind, read]
    | ok result =>
      have next := arrived_of_read (answers ▸ arrived.full) read (.inl there) visit.entry
      rw [contents, sameSize, arrived.contents, arrived.length] at next
      refine .inr ⟨_, _, ?_, ⟨complete, named, rfl⟩, next,
        (StreamWrapperBase.got_of_read read).answers.trans answers⟩
      simp only [bind, Except.bind, read, pure, Except.pure]

/-- What a load may end with: an exception, or the bytes behind an entry of the chain with the
name. -/
def Right (bytes : Nat → UInt8) (size : Nat) (name : BitVec 64) (tensor : TensorWrapper)
    (start : Nat) :
    Except SerializationError Loaded → Prop
  | .error _ => True
  | .ok (loaded, _) => ∃ position, OffsetChain bytes size name start position ∧
    Named bytes size name position ∧
      FilledFrom bytes size (position + entrySize) tensor.sz.toNat 0 loaded

theorem Right.head {start next : Nat} {result : Except SerializationError Loaded}
    (leads : LeadsTo bytes size name start next)
    (right : Right bytes size name tensor next result) :
      Right bytes size name tensor start result := by
  cases result with
  | error => trivial
  | ok loaded =>
    obtain ⟨position, chain, rest⟩ := right
    exact ⟨position, .head leads chain, rest⟩

theorem Decided.leaves {start : Nat} (decided : Decided bytes size name start)
    (arrived : Arrived bytes size start visit)
    (tensor : TensorWrapper) :
    ∃ result, Leaves (loadTurn name tensor) visit result ∧
      Right bytes size name tensor start result := by
  obtain ⟨position, chain, decides⟩ := decided
  have positive : 0 < entrySize := by decide
  induction chain using Relation.ReflTransGen.head_induction_on generalizing visit with
  | refl =>
    rcases arrived.loadTurn_cases name tensor with ⟨past, _⟩ | ⟨_, turn⟩ | ⟨named, turn⟩ | ⟨_,
      error, turn⟩ |
      ⟨_, _, _, ⟨complete, other, _⟩, _⟩
    · rcases decides with ⟨inside, _⟩ | ⟨complete, _⟩ <;> omega
    · exact ⟨_, .now turn, trivial⟩
    · refine ⟨_, .now turn, ?_⟩
      cases found : loadFound tensor visit with
      | error => trivial
      | ok loaded =>
        have filled := loadFound_filled found
        rw [arrived.contents, arrived.length, arrived.here named.1] at filled
        exact ⟨_, .refl, named, filled⟩
    · exact ⟨_, .now turn, trivial⟩
    · rcases decides with ⟨_, short⟩ | ⟨_, named⟩
      · omega
      · exact absurd named other
  | head leads _ ih =>
    obtain ⟨complete, other, goal⟩ := leads
    rcases arrived.loadTurn_cases name tensor with ⟨past, _⟩ | ⟨⟨_, short⟩, _⟩ | ⟨⟨_, named⟩,
      _⟩ | ⟨_, error, turn⟩ |
      ⟨next, _, turn, ⟨_, _, same⟩, there, _⟩
    · omega
    · omega
    · exact absurd named other
    · exact ⟨_, .now turn, trivial⟩
    · obtain ⟨result, leaves, right⟩ := ih (same.symm.trans goal ▸ there)
      exact ⟨result, .later turn leaves, right.head ⟨complete, other, goal⟩⟩

theorem decided_of_leaves {start : Nat} {result : Except SerializationError Loaded}
    (leaves : Leaves (loadTurn name tensor) visit result)
    (right : Right bytes size name tensor start result)
    (arrived : Arrived bytes size start visit) (honest : visit.stream.Honest) :
      Decided bytes size name start := by
  cases result with
  | ok loaded =>
    obtain ⟨position, chain, named, _⟩ := right
    exact ⟨position, chain, .inr named⟩
  | error error =>
    generalize failed : Except.error error = result at leaves
    induction leaves generalizing start with
    | now left =>
      rcases arrived.loadTurn_cases name
        tensor with ⟨_, turn⟩ | ⟨cut, _⟩ | ⟨named, _⟩ | ⟨other, _⟩ | ⟨_, _, turn, _⟩
      · cases (Turn.leave.inj (left.symm.trans turn)).symm.trans failed.symm
      · exact ⟨_, .refl, .inl cut⟩
      · exact ⟨_, .refl, .inr named⟩
      · exact absurd honest other
      · cases left.symm.trans turn
    | later goes _ ih =>
      rcases arrived.loadTurn_cases name
        tensor with ⟨_, turn⟩ | ⟨_, turn⟩ | ⟨_, turn⟩ | ⟨_, _, turn⟩ |
        ⟨_, _, turn, leads, there, answers⟩
      all_goals cases goes.symm.trans turn
      obtain ⟨position, chain, decides⟩ :=
        ih there (fun call n => answers ▸ honest call n) trivial failed
      exact ⟨position, .head leads chain, decides⟩

theorem headerWord_eq (full : Full stream.answer) {data : List UInt8}
    (read : stream.read 4 = .ok (data, after))
    (near : stream.position = min position stream.size) (old : Nat → UInt8) :
    ofLittleEndian 4 (received old data) = headerWord stream.bytes stream.size old position ∧
      after.position = min (position + 4) stream.size := by
  have got := StreamWrapperBase.got_of_read read
  have length := got.full full
  refine ⟨ofLittleEndian_congr fun i inside => ?_, by rw [got.moved]; omega⟩
  rw [received]
  split
  · rw [got.bytes i (by omega)]
    congr 1
    omega
  · rw [getD_eq_getElem?_getD, getElem?_eq_none (by omega), Option.getD_none]

/-- The header as full reads get it. -/
theorem header_read {sought one two three : StreamWrapperBase} {magic major minor : List UInt8}
    (full : Full stream.answer)
    (seek : stream.seek 0 = .ok sought) (readMagic : sought.read 4 = .ok (magic, one))
    (readMajor : one.read 4 = .ok (major, two)) (readMinor : two.read 4 = .ok (minor, three))
    (junk : Uninitialized) :
    three.bytes = stream.bytes ∧ three.size = stream.size ∧ three.answer = stream.answer ∧
      three.position = min headerSize stream.size ∧
      ((ofLittleEndian 4 (received junk.magicNumber magic) == magicNumber &&
        ofLittleEndian 4 (received junk.versionMajor major) == versionMajor &&
        ofLittleEndian 4 (received junk.versionMinor minor) == versionMinor) = true ↔
          HeaderRight stream.bytes stream.size junk) := by
  obtain ⟨contents, length, answers, position⟩ := StreamWrapperBase.contents_of_seek seek
  have gotMagic := StreamWrapperBase.got_of_read readMagic
  have gotMajor := StreamWrapperBase.got_of_read readMajor
  have gotMinor := StreamWrapperBase.got_of_read readMinor
  have fullMagic : Full sought.answer := answers ▸ full
  have fullMajor : Full one.answer := gotMagic.answers ▸ fullMagic
  have fullMinor : Full two.answer := gotMajor.answers ▸ fullMajor
  obtain ⟨magicWord, first⟩ :=
    headerWord_eq fullMagic readMagic (by rw [position, Nat.zero_min]) junk.magicNumber
  obtain ⟨majorWord, second⟩ :=
    headerWord_eq fullMajor readMajor (by rw [first, gotMagic.length]) junk.versionMajor
  obtain ⟨minorWord, third⟩ :=
    headerWord_eq fullMinor readMinor (by rw [second, gotMajor.length]) junk.versionMinor
  have bytes : two.bytes = stream.bytes :=
    gotMajor.contents.trans (gotMagic.contents.trans contents)
  have size : two.size = stream.size := gotMajor.length.trans (gotMagic.length.trans length)
  refine ⟨gotMinor.contents.trans bytes, gotMinor.length.trans size, ?_,
    third.trans (by rw [size]; rfl), ?_⟩
  · rw [gotMinor.answers, gotMajor.answers, gotMagic.answers, answers]
  · rw [magicWord, majorWord, minorWord, bytes, size, gotMagic.contents, gotMagic.length, contents,
      length, HeaderRight,
      Bool.and_eq_true, Bool.and_eq_true, beq_iff_eq, beq_iff_eq, beq_iff_eq, and_assoc]

theorem firstEntry_arrived {junk : Uninitialized} (full : Full stream.answer)
    (first : firstEntry junk stream = .ok visit) :
    HeaderRight stream.bytes stream.size junk ∧ Arrived stream.bytes stream.size headerSize visit ∧
      visit.stream.answer = stream.answer := by
  obtain ⟨verified, verify, first⟩ := exists_of_bind_ok first
  obtain ⟨sought, seek, verify⟩ := exists_of_bind_ok verify
  obtain ⟨magic, readMagic, verify⟩ := exists_of_bind_ok verify
  obtain ⟨major, readMajor, verify⟩ := exists_of_bind_ok verify
  obtain ⟨minor, readMinor, verify⟩ := exists_of_bind_ok verify
  obtain ⟨contents, length, answers, position, words⟩ :=
    header_read full seek readMagic readMajor readMinor junk
  cases verify
  simp only at first
  split at first
  · exact absurd first (by simp [throw, throwThe, MonadExceptOf.throw, bind, Except.bind])
  rename_i right
  obtain ⟨entry, readEntry, first⟩ := exists_of_bind_ok first
  have arrived := arrived_of_read (answers ▸ full) readEntry
    (show minor.2.position = headerSize ∨ _ by rw [position, length]; omega) fun _ => 0
  rw [contents, length] at arrived
  cases first
  exact ⟨words.mp (not_not.mp right), arrived,
    (StreamWrapperBase.got_of_read readEntry).answers.trans answers⟩

theorem exists_firstEntry {junk : Uninitialized} (honest : stream.Honest)
    (right : HeaderRight stream.bytes stream.size junk) :
    ∃ visit, firstEntry junk stream = .ok visit := by
  have seek := honest.seek 0
  obtain ⟨magic, one, readMagic, honestMagic⟩ := StreamWrapperBase.exists_read
    (show StreamWrapperBase.Honest { stream with
      position := 0, calls := stream.calls + 1 } from honest) 4
  obtain ⟨major, two, readMajor, honestMajor⟩ := StreamWrapperBase.exists_read honestMagic 4
  obtain ⟨minor, three, readMinor, honestMinor⟩ := StreamWrapperBase.exists_read honestMajor 4
  obtain ⟨entry, last, readEntry, _⟩ := StreamWrapperBase.exists_read honestMinor entrySize
  obtain ⟨_, _, _, _, words⟩ :=
    header_read (StreamWrapperBase.full_of_honest honest) seek readMagic readMajor readMinor junk
  refine ⟨⟨received (fun _ => 0) entry, entry.length, last⟩, ?_⟩
  simp only [firstEntry, verifyTableHeader, seek, bind, Except.bind, readMagic, readMajor,
    readMinor, readEntry, pure,
    Except.pure, words.mpr right, not_true_eq_false, if_false]

/-- The load ends, and when it returns the name was on the chain and the destination has its
bytes. -/
structure SafeLoad (junk : Uninitialized) (stream : StreamWrapperBase) (name : BitVec 64)
    (tensor : TensorWrapper) :
    Prop where
  ends : ∃ fuel result, loadTensorFromStream junk fuel stream name tensor = some result
  right : ∀ fuel result, loadTensorFromStream junk fuel stream name tensor = some result →
    Right stream.bytes stream.size name tensor headerSize result

theorem safeLoad_of_decided (stream : StreamWrapperBase) {junk : Uninitialized}
    (full : Full stream.answer)
    (decides : HeaderRight stream.bytes stream.size junk →
      Decided stream.bytes stream.size name headerSize)
    (tensor : TensorWrapper) : SafeLoad junk stream name tensor := by
  cases reached : firstEntry junk stream with
  | error error =>
    refine ⟨⟨0, .error error, by simp only [loadTensorFromStream, reached]⟩,
      fun fuel result ended => ?_⟩
    simp only [loadTensorFromStream, reached, Option.some.injEq] at ended
    exact ended ▸ trivial
  | ok first =>
    obtain ⟨right, arrived, _⟩ := firstEntry_arrived full reached
    obtain ⟨result, leaves, right⟩ := (decides right).leaves arrived tensor
    obtain ⟨fuel, ended⟩ := leaves.exists_fuel
    refine ⟨⟨fuel, result, by simp only [loadTensorFromStream, reached, ended]⟩,
      fun other again ended => ?_⟩
    simp only [loadTensorFromStream, reached] at ended
    exact leaves.unique (loop_leaves ended) ▸ right

theorem decided_of_safeLoad (stream : StreamWrapperBase) {junk : Uninitialized}
    (honest : stream.Honest) (safe : SafeLoad junk stream name tensor)
    (right : HeaderRight stream.bytes stream.size junk) :
      Decided stream.bytes stream.size name headerSize := by
  obtain ⟨first, reached⟩ := exists_firstEntry honest right
  obtain ⟨_, arrived, answers⟩ :=
    firstEntry_arrived (StreamWrapperBase.full_of_honest honest) reached
  obtain ⟨fuel, result, ended⟩ := safe.ends
  have ended' := ended
  simp only [loadTensorFromStream, reached] at ended'
  exact decided_of_leaves (loop_leaves ended') (safe.right fuel result ended) arrived fun call n =>
    answers ▸ honest call n

end TensorFileFormat

/-! ### Rows -/

structure Delivered (stream : StreamWrapperBase) (old : Nat → UInt8) (base total : Nat)
    (loaded : Nat → UInt8)
    (after : StreamWrapperBase) : Prop extends
    FilledFrom stream.bytes stream.size stream.position total base loaded where
  contents : after.bytes = stream.bytes
  length : after.size = stream.size
  answers : after.answer = stream.answer
  moved : after.position = stream.position + total
  outside : ∀ a, a < base ∨ base + total ≤ a → loaded a = old a

theorem Delivered.none (stream : StreamWrapperBase) (old : Nat → UInt8) (base : Nat) :
    Delivered stream old base 0 old stream :=
  ⟨⟨Nat.zero_le _, fun _ small => absurd small (Nat.not_lt_zero _)⟩, rfl, rfl, rfl, rfl,
    fun _ _ => rfl⟩

theorem Delivered.trans {stream middle after : StreamWrapperBase} {old between loaded : Nat → UInt8}
    {base one two : Nat}
    (first : Delivered stream old base one between middle)
    (second : Delivered middle between (base + one) two loaded after) :
    Delivered stream old base (one + two) loaded after := by
  have available := second.available
  rw [first.length, first.moved] at available
  refine ⟨⟨?_, fun i small => ?_⟩, second.contents.trans first.contents,
    second.length.trans first.length,
    second.answers.trans first.answers, ?_, fun a apart => ?_⟩
  · have := first.available
    omega
  · by_cases early : i < one
    · rw [second.outside _ (.inl (by omega)), first.filled i early]
    · have later := second.filled (i - one) (by omega)
      rw [first.contents, first.moved] at later
      rw [show base + i = base + one + (i - one) by omega, later]
      congr 1
      omega
  · rw [second.moved, first.moved]
    omega
  · rw [second.outside a (by omega), first.outside a (by omega)]

variable {stream after : StreamWrapperBase}

theorem delivered_of_read {n : Nat} {data : List UInt8} (old : Nat → UInt8) (base : Nat)
    (read : stream.read n = .ok (data, after)) :
    Delivered stream old base data.length
      (blit old base data.length fun i => data.getD i 0) after := by
  have got := StreamWrapperBase.got_of_read read
  refine ⟨⟨got.available, fun i small => ?_⟩, got.contents, got.length, got.answers, got.moved,
    fun a apart => ?_⟩
  · rw [blit_inside _ _ _ _ _ (by omega) (by omega)]
    exact (congrArg (data.getD · 0) (Nat.add_sub_cancel_left base i)).trans (got.bytes i small 0)
  · exact blit_outside _ _ _ _ _ (by omega)

section Fill

variable {base total : Nat} {filling : Filling}

theorem fillTurn_full (full : filling.readBytes = total) :
    fillTurn base total filling = .leave (.ok (filling.data, filling.stream)) := by
  rw [fillTurn, if_neg (by omega)]

theorem fillTurn_throws (missing : filling.readBytes < total) {error : SerializationError}
    (thrown : filling.stream.read (total - filling.readBytes) = .error error) :
    fillTurn base total filling = .leave (.error error) := by
  rw [fillTurn, if_pos missing]
  simp only [thrown]

theorem exists_fillTurn_more (missing : filling.readBytes < total) {data : List UInt8}
    (read : filling.stream.read (total - filling.readBytes) = .ok (data, after)) :
    ∃ next, fillTurn base total filling = .again next ∧ next.stream = after ∧
      next.readBytes = filling.readBytes + data.length ∧
      Delivered filling.stream filling.data (base + filling.readBytes) data.length
        next.data after := by
  refine ⟨⟨filling.readBytes + data.length,
    blit filling.data (base + filling.readBytes) data.length fun i => data.getD i 0,
    after⟩, ?_, rfl, rfl, delivered_of_read filling.data (base + filling.readBytes) read⟩
  rw [fillTurn, if_pos missing]
  simp only [read]

theorem fillTurn_again {next : Filling} (goes : fillTurn base total filling = .again next)
    (bound : filling.readBytes ≤ total) :
    ∃ data, filling.readBytes < total ∧
      filling.stream.read (total - filling.readBytes) = .ok (data, next.stream) ∧
      next.readBytes = filling.readBytes + data.length ∧ next.readBytes ≤ total ∧
      Delivered filling.stream filling.data (base + filling.readBytes) data.length next.data
        next.stream := by
  by_cases full : filling.readBytes = total
  · rw [fillTurn_full full] at goes
    cases goes
  · cases read : filling.stream.read (total - filling.readBytes) with
    | error error =>
      rw [fillTurn_throws (by omega) read] at goes
      cases goes
    | ok got =>
      have requested := (StreamWrapperBase.got_of_read read).requested
      obtain ⟨reached, turn, there, count, delivered⟩ := exists_fillTurn_more (by omega) read
      rw [turn] at goes
      cases goes
      rw [← there] at delivered
      exact ⟨got.1, by omega, by rw [there], count, by omega, delivered⟩

variable {result : Except SerializationError TensorFileFormat.Loaded}

theorem fillTurn_leave (left : fillTurn base total filling = .leave result)
    (bound : filling.readBytes ≤ total) :
    filling.readBytes = total ∧ result = .ok (filling.data, filling.stream) ∨
    filling.readBytes < total ∧ ∃ error, filling.stream.read (total - filling.readBytes) =
      .error error ∧
      result = .error error := by
  by_cases full : filling.readBytes = total
  · rw [fillTurn_full full] at left
    cases left
    exact .inl ⟨full, rfl⟩
  · cases read : filling.stream.read (total - filling.readBytes) with
    | error error =>
      rw [fillTurn_throws (by omega) read] at left
      cases left
      exact .inr ⟨by omega, error, rfl, rfl⟩
    | ok got =>
      obtain ⟨next, turn, _⟩ := exists_fillTurn_more (by omega) read
      rw [turn] at left
      cases left

theorem delivered_of_leaves {old loaded : Nat → UInt8}
    (leaves : Leaves (fillTurn base total) filling (.ok (loaded, after)))
    (bound : filling.readBytes ≤ total)
    (sofar : Delivered stream old base filling.readBytes filling.data filling.stream) :
    Delivered stream old base total loaded after := by
  generalize returned : Except.ok (loaded, after) = result at leaves
  induction leaves with
  | now left =>
    rcases fillTurn_leave left bound with ⟨full, same⟩ | ⟨_, error, _, failed⟩
    · cases returned.trans same
      exact full ▸ sofar
    · exact absurd (returned.trans failed) (by simp)
  | later goes _ ih =>
    obtain ⟨data, _, _, count, le, delivered⟩ := fillTurn_again goes bound
    exact ih le (count ▸ sofar.trans delivered) returned

/-- A willing stream with enough bytes ends the loop; each turn gets some of them. -/
theorem exists_leaves (missing : Nat) (rest : total - filling.readBytes = missing)
    (bound : filling.readBytes ≤ total)
    (willing : Willing filling.stream.answer)
    (enough : missing ≤ filling.stream.size - filling.stream.position) :
    ∃ result, Leaves (fillTurn base total) filling result := by
  induction missing using Nat.strong_induction_on generalizing filling with
  | _ missing ih =>
    rcases Nat.eq_zero_or_pos missing with none | some
    · exact ⟨_, .now (fillTurn_full (by omega))⟩
    · cases read : filling.stream.read (total - filling.readBytes) with
      | error error => exact ⟨_, .now (fillTurn_throws (by omega) read)⟩
      | ok got =>
        have facts := StreamWrapperBase.got_of_read read
        have progress := facts.willing willing (by omega) (by omega)
        have requested := facts.requested
        obtain ⟨next, turn, there, count, _⟩ :=
          @exists_fillTurn_more _ base total filling (by omega) _ read
        obtain ⟨result, leaves⟩ :=
          @ih (missing - got.1.length) (by omega) next (by omega) (by omega)
          (by rw [there, facts.answers]; exact willing)
            (by rw [there, facts.length, facts.moved]; omega)
        exact ⟨result, .later turn leaves⟩

theorem not_honest_of_leaves {error : SerializationError}
    (leaves : Leaves (fillTurn base total) filling (.error error))
    (bound : filling.readBytes ≤ total) : ¬ filling.stream.Honest := by
  generalize failed : Except.error error = result at leaves
  induction leaves with
  | now left =>
    rcases fillTurn_leave left bound with ⟨_, returned⟩ | ⟨_, _, thrown, _⟩
    · cases failed.trans returned
    · exact StreamWrapperBase.not_honest_of_read thrown
  | later goes _ ih =>
    obtain ⟨data, _, _, _, le, delivered⟩ := fillTurn_again goes bound
    exact fun honest => ih le failed fun call n => delivered.answers ▸ honest call n

end Fill

/-- The load ends, and when it returns the destination has the next bytes of the stream. -/
structure SafeFill (load : Nat → Option (Except SerializationError TensorFileFormat.Loaded))
    (stream : StreamWrapperBase)
    (total : Nat) : Prop where
  ends : ∃ fuel result, load fuel = some result
  filled : ∀ fuel loaded after, load fuel = some (.ok (loaded, after)) →
    FilledFrom stream.bytes stream.size stream.position total 0 loaded

theorem fill_delivered {base total fuel : Nat} {data loaded : Nat → UInt8}
    (ended : fill base total fuel data stream = some (.ok (loaded, after))) :
    Delivered stream data base total loaded after :=
  delivered_of_leaves (loop_leaves ended) (Nat.zero_le total) (Delivered.none stream data base)

theorem exists_fill {base total : Nat} (willing : Willing stream.answer)
    (enough : total ≤ stream.size - stream.position)
    (data : Nat → UInt8) : ∃ fuel result, fill base total fuel data stream = some result := by
  obtain ⟨result, leaves⟩ :=
    @exists_leaves base total ⟨0, data, stream⟩ total (Nat.sub_zero total) (Nat.zero_le total)
    willing enough
  obtain ⟨fuel, ended⟩ := leaves.exists_fuel
  exact ⟨fuel, result, ended⟩

theorem fill_ne_error {base total fuel : Nat} {data : Nat → UInt8} {error : SerializationError}
    (honest : stream.Honest) :
    fill base total fuel data stream ≠ some (.error error) :=
  fun ended => not_honest_of_leaves (loop_leaves ended) (Nat.zero_le total) honest

variable {data : Nat → UInt8} {result : Except SerializationError TensorFileFormat.Loaded}

namespace NumpyTensorFileFormat

variable {row : Nat}

theorem loadRows_mono {fuel more : Nat} (le : fuel ≤ more) {first batch : Nat}
    {stream : StreamWrapperBase}
    (ended : loadRows row fuel first batch data stream = some result) :
    loadRows row more first batch data stream = some result := by
  induction batch generalizing first data stream with
  | zero => exact ended
  | succ batch ih =>
    unfold loadRows at ended ⊢
    cases filled : fill (first * row) row fuel data stream with
    | none => simp [filled] at ended
    | some rowResult =>
      rw [filled] at ended
      rw [show fill (first * row) row more data stream = some rowResult from loop_mono le filled]
      cases rowResult with
      | error error => exact ended
      | ok loaded => exact ih ended

theorem loadRows_delivered {fuel first batch : Nat} {data loaded : Nat → UInt8}
    (ended : loadRows row fuel first batch data stream = some (.ok (loaded, after))) :
    Delivered stream data (first * row) (batch * row) loaded after := by
  induction batch generalizing first data stream with
  | zero =>
    cases ended
    rw [Nat.zero_mul]
    exact Delivered.none _ _ _
  | succ batch ih =>
    unfold loadRows at ended
    cases filled : fill (first * row) row fuel data stream with
    | none => simp [filled] at ended
    | some rowResult =>
      rw [filled] at ended
      cases rowResult with
      | error error => cases ended
      | ok middle =>
        have rest := ih ended
        rw [Nat.add_one_mul] at rest
        rw [Nat.add_one_mul, Nat.add_comm]
        exact (fill_delivered filled).trans rest

theorem exists_loadRows {first batch : Nat} {stream : StreamWrapperBase}
    (willing : Willing stream.answer)
    (enough : batch * row ≤ stream.size - stream.position) (data : Nat → UInt8) :
    ∃ fuel result, loadRows row fuel first batch data stream = some result := by
  induction batch generalizing first data stream with
  | zero => exact ⟨0, _, rfl⟩
  | succ batch ih =>
    rw [Nat.add_one_mul] at enough
    obtain ⟨fuel, rowResult, filled⟩ := exists_fill willing (show row ≤ _ by omega) data
    cases rowResult with
    | error error => exact ⟨fuel, .error error, by unfold loadRows; rw [filled]⟩
    | ok loaded =>
      have delivered := fill_delivered filled
      obtain ⟨more, result, ended⟩ :=
        @ih (first + 1) loaded.2 (by rw [delivered.answers]; exact willing)
        (by rw [delivered.length, delivered.moved]; omega) loaded.1
      refine ⟨max fuel more, result, ?_⟩
      unfold loadRows
      rw [show fill (first * row) row (max fuel more) data stream = some (.ok loaded) from
        loop_mono (Nat.le_max_left fuel more) filled]
      exact loadRows_mono (Nat.le_max_right fuel more) ended

theorem loadRows_ne_error {fuel first batch : Nat} {error : SerializationError}
    {stream : StreamWrapperBase}
    (honest : stream.Honest) : loadRows row fuel first batch data stream ≠ some (.error error) := by
  induction batch generalizing first data stream with
  | zero => nofun
  | succ batch ih =>
    unfold loadRows
    cases filled : fill (first * row) row fuel data stream with
    | none => nofun
    | some rowResult =>
      cases rowResult with
      | error thrown => exact absurd filled (fill_ne_error honest)
      | ok loaded => exact ih fun call n => (fill_delivered filled).answers ▸ honest call n

end NumpyTensorFileFormat

/-- Loads that fill a destination of `total` bytes are safe on every willing stream exactly if the
bytes are there. -/
theorem safeFill_iff {load : StreamWrapperBase → Nat →
      Option (Except SerializationError TensorFileFormat.Loaded)}
    {total : Nat}
    (filled : ∀ stream fuel loaded after, load stream fuel = some (.ok (loaded, after)) →
      FilledFrom stream.bytes stream.size stream.position total 0 loaded)
    (ends : ∀ stream : StreamWrapperBase, Willing stream.answer →
      total ≤ stream.size - stream.position →
      ∃ fuel result, load stream fuel = some result)
    (never : ∀ stream fuel error, stream.Honest → load stream fuel ≠ some (.error error))
    (stream : StreamWrapperBase) :
    (∀ answer, Willing answer → SafeFill (load (stream.answering answer)) stream total) ↔
      total ≤ stream.size - stream.position := by
  constructor
  · intro safe
    have honest : (stream.answering fun _ n => some n).Honest := fun _ _ => rfl
    obtain ⟨fuel, result, ended⟩ := (safe _ (StreamWrapperBase.willing_of_honest honest)).ends
    cases result with
    | ok loaded => exact (filled _ _ _ _ ended).available
    | error error => exact absurd ended (never _ _ _ honest)
  · exact fun enough answer willing => ⟨ends (stream.answering answer) willing enough,
      fun fuel loaded after ended => filled (stream.answering answer) fuel loaded after ended⟩

def eightBytes : StreamWrapperBase := ⟨fun i => UInt8.ofNat i, 8, 0, 0, fun _ n => some n⟩

namespace TensorFileFormat

def circularFile : StreamWrapperBase where
  bytes := fun i =>
    (numberBytes 4 magicNumber ++ numberBytes 4 versionMajor ++ numberBytes 4 versionMinor ++
    TableEntry.bytes ⟨⟨0, 1⟩, 12, 0⟩).getD i 0
  size := 44
  position := 0
  calls := 0
  answer := fun _ n => some n

end TensorFileFormat

namespace TensorFileFormat

theorem circularFile_header : Header circularFile.bytes := ⟨by decide, by decide, by decide⟩

theorem circularFile_entry {visit : Visit}
    (behind : Behind circularFile.bytes circularFile.size headerSize visit) :
    TableEntry.ofMemory visit.entry = ⟨⟨0, 1⟩, 12, 0⟩ := by
  apply TableEntry.ofMemory_bytes
  intro i bound
  rw [behind.entry i bound]
  revert i
  decide

theorem circularFile_loop (target : TensorWrapper) (fuel : Nat) {visit : Visit}
    (behind : Behind circularFile.bytes circularFile.size headerSize visit) :
      loop (loadTurn 2 target) fuel visit = none := by
  induction fuel generalizing visit with
  | zero => rfl
  | succ fuel ih =>
    have entry := circularFile_entry behind
    have other : (TableEntry.ofMemory visit.entry).key.key2 ≠ 2 := by rw [entry]; decide
    have leads : (TableEntry.ofMemory visit.entry).offset.toNat = headerSize := by rw [entry]; rfl
    obtain ⟨next, turn, behindNext⟩ := behind.loadTurn_again other leads (by decide) target
    rw [loop, turn]
    exact ih behindNext

def headerOnly : StreamWrapperBase := { circularFile with size := headerSize }

theorem headerOnly_loads (junk : Uninitialized) (name : BitVec 64) (target : TensorWrapper) :
    ∃ after, loadTensorFromStream junk 1 headerOnly name target =
      some (.ok (target.data, after)) := by
  obtain ⟨verified, verify, honest, contents, length, position⟩ :=
    exists_verified (fun _ _ => rfl) (show Header headerOnly.bytes from circularFile_header)
      (by decide) junk
  -- nothing is left behind the header, so the loop is not entered
  have read : ∃ after, verified.read entrySize = .ok ([], after) := by
    refine ⟨{ verified with position := verified.position, calls := verified.calls + 1 }, ?_⟩
    simp only [StreamWrapperBase.read, honest _ _]
    simp [StreamWrapperBase.count, length, position, headerOnly, readRange]
  obtain ⟨after, read⟩ := read
  have first : firstEntry junk headerOnly = .ok ⟨received (fun _ => 0) [], 0, after⟩ := by
    simp only [firstEntry, verify, bind, Except.bind, read, not_true, if_false, pure,
      Except.pure, length_nil]
  exact ⟨after, by simp only [loadTensorFromStream, first, loop, loadTurn, if_true]⟩

end TensorFileFormat

theorem eightBytes_short {load : Nat → Option (Except SerializationError TensorFileFormat.Loaded)}
    (available : ∀ fuel loaded, load fuel = some (.ok loaded) → 12 ≤ 8)
    (never : ∀ fuel error, load fuel ≠ some (.error error)) (fuel : Nat) : load fuel = none := by
  rw [Option.eq_none_iff_forall_ne_some]
  intro result ended
  cases result with
  | ok loaded => exact absurd (available fuel loaded ended) (by decide)
  | error error => exact never fuel error ended

end EmbedCache.Serialization
