import EmbedCache.NumpyHeader

/-! What the reader's searches find in a header text of the format.

Each of the three keys has a letter that occurs nowhere else in a header text. A match of the
search for that key is therefore at the item of that key. -/

namespace EmbedCache.Serialization

open Lib Lib.TextSearch NumpyFormat List

namespace NumpyTensorFileFormat

/-! ### Dimensions -/

variable {blank : List Char}

theorem isSpace_of_blank (isBlank : Blank blank) : ∀ letter ∈ blank, isSpace letter = true := by
  intro letter member
  have space := isBlank letter member
  simp only [mem_cons, not_mem_nil, or_false] at space
  rcases space with rfl | rfl | rfl | rfl | rfl <;> rfl

variable {letter : Char}

theorem notMem_of_blank (isBlank : Blank blank) (solid : isSpace letter = false) :
    letter ∉ blank := by
  intro member
  rw [isSpace_of_blank isBlank letter member] at solid
  cases solid

theorem digit_not_space (digit : letter.isDigit = true) : isSpace letter = false := by
  simp only [Char.isDigit, isSpace, Bool.and_eq_true, decide_eq_true_eq, Bool.or_eq_false_iff,
    Bool.and_eq_false_iff,
    beq_eq_false_iff_ne, decide_eq_false_iff_not] at digit ⊢
  refine ⟨?_, .inr ?_⟩
  · rintro rfl
    exact absurd digit.1 (by decide)
  · intro small
    have low : ('0' : Char).val ≤ ('\r' : Char).val := UInt32.le_trans digit.1 small
    exact absurd low (by decide)

theorem takeWhile_digits (n : Nat) {tail : List Char} (tailBlank : Blank tail) :
    (Nat.toDigits 10 n ++ tail).takeWhile Char.isDigit = Nat.toDigits 10 n := by
  rw [takeWhile_append_of_pos fun letter member =>
    Nat.isDigit_of_mem_toDigits (by decide) (by decide) member]
  cases tail with
  | nil => rw [takeWhile_nil, append_nil]
  | cons letter tail =>
    have space := isSpace_of_blank tailBlank letter mem_cons_self
    have other : ¬ letter.isDigit = true := by
      intro digit
      rw [digit_not_space digit] at space
      cases space
    rw [takeWhile_cons_of_neg other, append_nil]

theorem dropWhile_lead {lead rest : List Char} (leadBlank : Blank lead) {first : Char}
    (solid : isSpace first = false) :
    (lead ++ first :: rest).dropWhile isSpace = first :: rest := by
  rw [dropWhile_append_of_pos (isSpace_of_blank leadBlank),
    dropWhile_cons_of_neg (by rw [solid]; exact nofun)]

theorem stoul_digits {lead tail : List Char} {n : Nat} (leadBlank : Blank lead)
    (tailBlank : Blank tail) (fits : n < 2 ^ 64) :
    stoul (lead ++ (Nat.toDigits 10 n ++ tail)) = some n := by
  have taken := takeWhile_digits n tailBlank
  have value : Nat.ofDigitChars 10 (Nat.toDigits 10 n) 0 = n :=
    Nat.ofDigitChars_toDigits (by decide) le_rfl
  have isDigit : ∀ letter ∈ Nat.toDigits 10 n, letter.isDigit = true := fun letter member =>
    Nat.isDigit_of_mem_toDigits (by decide) (by decide) member
  cases digits : Nat.toDigits 10 n with
  | nil => exact absurd digits Nat.toDigits_ne_nil
  | cons first others =>
    rw [digits] at taken value isDigit
    have digit := isDigit first mem_cons_self
    have unsigned : sign (first :: (others ++ tail)) = (false, first :: (others ++ tail)) := by
      have notMinus : first ≠ '-' := by rintro rfl; exact absurd digit (by decide)
      have notPlus : first ≠ '+' := by rintro rfl; exact absurd digit (by decide)
      rw [sign, if_neg notMinus, if_neg notPlus]
    rw [cons_append] at taken ⊢
    rw [stoul, dropWhile_lead leadBlank (digit_not_space digit), unsigned]
    simp only [taken, value]
    rw [if_neg (by simpa using fits)]
    rfl

theorem stoul_blank (isBlank : Blank blank) : stoul blank = none := by
  have dropped : (blank ++ []).dropWhile isSpace = [].dropWhile isSpace :=
    dropWhile_append_of_pos (isSpace_of_blank isBlank)
  rw [append_nil, dropWhile_nil] at dropped
  rw [stoul, dropped]
  exact if_pos (.inl rfl)

theorem notMem_number {lead tail : List Char} {n : Nat} (leadBlank : Blank lead)
    (tailBlank : Blank tail)
    (solid : isSpace letter = false) (other : letter.isDigit = false) :
      letter ∉ lead ++ (Nat.toDigits 10 n ++ tail) := by
  intro member
  rcases mem_append.mp member with inLead | rest
  · exact notMem_of_blank leadBlank solid inLead
  rcases mem_append.mp rest with inDigits | inTail
  · rw [Nat.isDigit_of_mem_toDigits (by decide) (by decide) inDigits] at other
    cases other
  · exact notMem_of_blank tailBlank solid inTail

variable {dimensions : List Nat}

theorem notMem_elements {text : List Char} (listed : Elements dimensions text)
    (solid : isSpace letter = false) (other : letter.isDigit = false) (notComma : letter ≠ ',') :
      letter ∉ text := by
  induction listed with
  | last n leadBlank tailBlank => exact notMem_number leadBlank tailBlank solid other
  | comma n leadBlank tailBlank behindBlank =>
    intro member
    rcases mem_append.mp member with inNumber | behind
    · exact notMem_number leadBlank tailBlank solid other inNumber
    rcases mem_cons.mp behind with same | inBlank
    · exact notComma same
    · exact notMem_of_blank behindBlank solid inBlank
  | more n leadBlank tailBlank _ ih =>
    intro member
    rcases mem_append.mp member with inNumber | behind
    · exact notMem_number leadBlank tailBlank solid other inNumber
    rcases mem_cons.mp behind with same | inRest
    · exact notComma same
    · exact ih inRest

/-- The loop over the pieces reads the dimensions of a tuple; white space behind the last comma is a
piece that is not a number and is skipped. -/
theorem filterMap_pieces_elements {text : List Char} (listed : Elements dimensions text)
    (fits : ∀ n ∈ dimensions, n < 2 ^ 64) : (pieces ',' text).filterMap stoul = dimensions := by
  induction listed with
  | @last lead tail n leadBlank tailBlank =>
    have some : lead ++ (Nat.toDigits 10 n ++ tail) ≠ [] := by simp [Nat.toDigits_ne_nil]
    rw [pieces_of_notMem (notMem_number leadBlank tailBlank rfl rfl) some, filterMap_cons,
      stoul_digits leadBlank tailBlank (fits n mem_cons_self)]
    rfl
  | @comma lead tail behind n leadBlank tailBlank behindBlank =>
    rw [pieces_append_cons (notMem_number leadBlank tailBlank rfl rfl), filterMap_cons,
      stoul_digits leadBlank tailBlank (fits n mem_cons_self)]
    by_cases nothing : behind = []
    · rw [nothing]
      rfl
    · rw [pieces_of_notMem (notMem_of_blank behindBlank rfl) nothing, filterMap_cons,
        stoul_blank behindBlank]
      rfl
  | more n leadBlank tailBlank _ ih =>
    have rest := ih fun other member => fits other (mem_cons_of_mem _ member)
    rw [pieces_append_cons (notMem_number leadBlank tailBlank rfl rfl), filterMap_cons,
      stoul_digits leadBlank tailBlank (fits n mem_cons_self), rest]

theorem exists_of_tuple {value : List Char} (tuple : TupleValue dimensions value)
    (fits : ∀ n ∈ dimensions, n < 2 ^ 64) :
    ∃ inner, value = '(' :: (inner ++ [')']) ∧ ')' ∉ inner ∧
      (pieces ',' inner).filterMap stoul = dimensions := by
  cases tuple with
  | @empty blank isBlank =>
    refine ⟨blank, rfl, notMem_of_blank isBlank rfl, ?_⟩
    by_cases nothing : blank = []
    · rw [nothing]
      rfl
    · rw [pieces_of_notMem (notMem_of_blank isBlank rfl) nothing, filterMap_cons,
        stoul_blank isBlank]
      rfl
  | elements listed _ =>
    exact ⟨_, rfl, notMem_elements listed rfl rfl (by decide),
      filterMap_pieces_elements listed fits⟩

theorem dimension_lt (array : NpyArray) : ∀ n ∈ array.shape, n < 2 ^ 64 := by
  intro n member
  by_cases zero : n = 0
  · rw [zero]
    exact Nat.two_pow_pos 64
  · have kept : n ∈ array.shape.filter (0 < ·) :=
      mem_filter.mpr ⟨member, by simpa using Nat.pos_of_ne_zero zero⟩
    have positive : ∀ other ∈ array.shape.filter (0 < ·), 1 ≤ other := by
      intro other member
      exact Nat.succ_le_of_lt (by simpa using (mem_filter.mp member).2)
    have size : 1 ≤ array.dtype.itemSize := by cases array.dtype <;> decide
    calc n ≤ (array.shape.filter (0 < ·)).prod := single_le_prod positive n kept
      _ ≤ (array.shape.filter (0 < ·)).prod * array.dtype.itemSize := Nat.le_mul_of_pos_right _ size
      _ < 2 ^ 63 := array.addressable
      _ < 2 ^ 64 := by decide

/-! ### Items -/

def Plain (letter : Char) : Prop :=
  isSpace letter = false ∧ letter ∉ ['\x7b', '\x7d', ',', ':', '\'', '"']

theorem notMem_quote {letter mark : Char} (plain : Plain letter) (quote : Quote mark) :
    letter ≠ mark := by
  rintro rfl
  cases quote <;> exact plain.2 (by decide)

theorem notMem_item {key item : List Char} {Value : List Char → Prop} (isItem : Item key Value item)
    (plain : Plain letter) (notKey : letter ∉ key)
    (notValue : ∀ value, Value value → letter ∉ value) : letter ∉ item := by
  cases isItem with
  | @mk lead gap space value tail mark leadBlank quote gapBlank spaceBlank valued tailBlank =>
    have colon : letter ≠ ':' := by rintro rfl; exact plain.2 (by decide)
    simp only [mem_append, mem_cons, not_or]
    exact ⟨notMem_of_blank leadBlank plain.1, notMem_quote plain quote, notKey,
      notMem_quote plain quote,
      notMem_of_blank gapBlank plain.1, colon, notMem_of_blank spaceBlank plain.1,
        notValue value valued,
      notMem_of_blank tailBlank plain.1⟩

theorem skip_blank {space rest more : List Char} {first target : Char} (spaceBlank : Blank space)
    (solid : isSpace first = false) (firm : isSpace target = false)
    (same : ' ' :: target :: rest = space ++ first :: more) : target = first ∧ rest = more := by
  have one : Blank [' '] := by intro letter member; rw [mem_singleton.mp member]; decide
  have dropped : target :: rest = first :: more := by
    rw [← dropWhile_lead spaceBlank solid, ← same]
    exact (dropWhile_lead one firm).symm
  exact List.cons.inj dropped

/-- A match around a letter that only the key of an item has is at that item, and what the match
goes on with is the value. -/
theorem value_of_match {key left right literal opening item front back before after : List Char}
    {Value : List Char → Prop} (isItem : Item key Value item)
    (keyIs : key = left ++ letter :: right)
    (literalIs : literal = opening ++ letter :: (right ++ ['\'', ':', ' '])) (plain : Plain letter)
    (once : letter ∉ left ++ right) (notValue : ∀ value, Value value → letter ∉ value)
    (early : letter ∉ front)
    (late : letter ∉ back) (whole : front ++ (item ++ back) = before ++ (literal ++ after)) :
    ∃ space value tail, Blank space ∧ Value value ∧
      ' ' :: after = space ++ (value ++ (tail ++ back)) := by
  subst keyIs literalIs
  cases isItem with
  | @mk lead gap space value tail mark leadBlank quote gapBlank spaceBlank valued tailBlank =>
    have colon : letter ≠ ':' := by rintro rfl; exact plain.2 (by decide)
    have notLeft : letter ∉ left := fun member => once (mem_append_left _ member)
    have notRight : letter ∉ right := fun member => once (mem_append_right _ member)
    have regrouped : (before ++ opening) ++ letter :: (right ++ ('\'' :: ':' :: ' ' :: after)) =
        (front ++ (lead ++ mark :: left)) ++
          letter :: (right ++ mark :: (gap ++ ':' :: (space ++ (value ++ (tail ++ back))))) := by
      simp only [append_assoc, cons_append, nil_append] at whole ⊢
      exact whole.symm
    have aligned := (cut_unique regrouped ?_ ?_).2
    · obtain ⟨rfl, behind⟩ := List.cons.inj (append_cancel_left aligned)
      cases gap with
      | nil => exact ⟨space, value, tail, spaceBlank, valued, (List.cons.inj behind).2⟩
      | cons letter gap =>
        have isColon := (List.cons.inj behind).1
        exact absurd (isSpace_of_blank gapBlank letter mem_cons_self) (by rw [← isColon]; decide)
    · simp only [mem_append, mem_cons, not_or]
      exact ⟨early, notMem_of_blank leadBlank plain.1, notMem_quote plain quote, notLeft⟩
    · simp only [mem_append, mem_cons, not_or]
      exact ⟨notRight, notMem_quote plain quote, notMem_of_blank gapBlank plain.1, colon,
        notMem_of_blank spaceBlank plain.1, notValue value valued,
          notMem_of_blank tailBlank plain.1, late⟩

theorem exists_around {lead item trailing pad : List Char} {items others : List (List Char)}
    (arranged : items.Perm (item :: others)) (plain : Plain letter)
    (free : ∀ other ∈ others, letter ∉ other)
    (leadBlank : Blank lead) (ended : Trailing trailing) (padBlank : Blank pad) :
    ∃ front back, letter ∉ front ∧ letter ∉ back ∧
      lead ++ '\x7b' :: ([','].intercalate items ++ (trailing ++ '\x7d' :: pad)) =
        front ++ (item ++ back) := by
  obtain ⟨before, after, rfl⟩ := append_of_mem (arranged.mem_iff.mpr mem_cons_self)
  have rest : (before ++ after).Perm others := (perm_middle.symm.trans arranged).cons_inv
  have comma : letter ≠ ',' := by rintro rfl; exact plain.2 (by decide)
  have opened : letter ≠ '\x7b' := by rintro rfl; exact plain.2 (by decide)
  have closed : letter ≠ '\x7d' := by rintro rfl; exact plain.2 (by decide)
  have notTrailing : letter ∉ trailing := by
    cases ended with
    | none => exact nofun
    | comma isBlank =>
      intro member
      rcases mem_cons.mp member with same | inside
      · exact comma same
      · exact notMem_of_blank isBlank plain.1 inside
  refine ⟨lead ++ '\x7b' :: before.flatMap (· ++ [',']),
    after.flatMap (',' :: ·) ++ (trailing ++ '\x7d' :: pad), ?_, ?_, ?_⟩
  · simp only [mem_append, mem_cons, mem_flatMap, not_mem_nil, or_false, not_or,
      not_exists, not_and]
    exact ⟨notMem_of_blank leadBlank plain.1, opened, fun other member =>
      ⟨free other (rest.mem_iff.mp (mem_append_left _ member)), comma⟩⟩
  · simp only [mem_append, mem_cons, mem_flatMap, not_or, not_exists, not_and]
    exact ⟨fun other member => ⟨comma, free other (rest.mem_iff.mp (mem_append_right _ member))⟩,
      notTrailing, closed,
      notMem_of_blank padBlank plain.1⟩
  · rw [intercalate_append_cons]
    simp only [append_assoc, cons_append]

/-! ### Header texts -/

section Found

variable {array : NpyArray} {text : List Char}

theorem found_ok {α : Type*} {result : Option α} {value : α} (there : found result = .ok value) :
    result = some value := by
  cases result with
  | none => cases there
  | some other =>
    cases there
    rfl

theorem exists_of_flag {behind : List Char} {flag : Bool}
    (named : (if "False".toList.isPrefixOf behind then some false
      else if "True".toList.isPrefixOf behind then some true else none) = some flag) :
    ∃ rest, behind = flagName flag ++ rest := by
  split at named
  · rename_i isFalse
    obtain ⟨rest, whole⟩ := isPrefixOf_iff_prefix.mp isFalse
    cases named
    exact ⟨rest, whole.symm⟩
  · split at named
    · rename_i isTrue
      obtain ⟨rest, whole⟩ := isPrefixOf_iff_prefix.mp isTrue
      cases named
      exact ⟨rest, whole.symm⟩
    · cases named

theorem eq_of_stop {stop : Char} {one two behind after : List Char} (absent : stop ∉ one)
    (missing : stop ∉ two)
    (same : one ++ stop :: behind = two ++ stop :: after) : one = two := by
  have first := upTo_append absent behind
  rw [same, upTo_append missing after] at first
  exact (Option.some.inj first).symm

theorem plain_c : Plain 'c' := by refine ⟨rfl, ?_⟩; decide
theorem plain_p : Plain 'p' := by refine ⟨rfl, ?_⟩; decide
theorem plain_underscore : Plain '_' := by refine ⟨rfl, ?_⟩; decide

theorem notMem_descrValue {dtype : Dtype} {letter : Char} (plain : Plain letter)
    (other : letter ∉ dtype.name) :
    ∀ value, DescrValue dtype value → letter ∉ value := by
  intro value valued
  cases valued with
  | mk quote =>
    simp only [mem_cons, mem_append, not_mem_nil, or_false, not_or]
    exact ⟨notMem_quote plain quote, other, notMem_quote plain quote⟩

theorem notMem_tupleValue {dimensions : List Nat} {letter : Char} (plain : Plain letter)
    (notDigit : letter.isDigit = false)
    (notOpen : letter ≠ '(') (notClosed : letter ≠ ')') : ∀ value, TupleValue dimensions value →
      letter ∉ value := by
  have comma : letter ≠ ',' := by rintro rfl; exact plain.2 (by decide)
  intro value valued
  cases valued with
  | empty isBlank =>
    simp only [mem_cons, mem_append, not_mem_nil, or_false, not_or]
    exact ⟨notOpen, notMem_of_blank isBlank plain.1, notClosed⟩
  | elements listed _ =>
    simp only [mem_cons, mem_append, not_mem_nil, or_false, not_or]
    exact ⟨notOpen, notMem_elements listed plain.1 notDigit comma, notClosed⟩

theorem descr_found (header : HeaderText array text) {captured : List Char}
    (hit : search descrRegex text = some captured) : captured = array.dtype.name := by
  cases header with
  | @mk lead descr order shape trailing pad items leadBlank descrItem orderItem shapeItem arranged
    ended padBlank =>
    have notOrder : 'c' ∉ order := by
      refine notMem_item orderItem plain_c (by decide) fun value valued => ?_
      rw [valued]
      cases array.fortranOrder <;> decide
    have notShape : 'c' ∉ shape := notMem_item shapeItem plain_c (by decide)
      (notMem_tupleValue plain_c rfl (by decide) (by decide))
    obtain ⟨front, back, early, late, whole⟩ :=
      exists_around arranged plain_c (by simpa using ⟨notOrder, notShape⟩) leadBlank ended padBlank
    obtain ⟨before, rest, cut, matched⟩ := exists_of_search hit
    obtain ⟨absent, more, rfl⟩ := exists_of_captureUntil (Option.filter_eq_some_iff.mp matched).1
    have notName : 'c' ∉ array.dtype.name := by cases array.dtype <;> decide
    have key : "descr".toList = "des".toList ++ 'c' :: "r".toList := by decide
    have literal : "'descr': ".toList = "'des".toList ++ 'c' ::
        ("r".toList ++ ['\'', ':', ' ']) := by decide
    have quoted : "'descr': '".toList = "'descr': ".toList ++ ['\''] := by decide
    rw [whole, quoted, append_assoc] at cut
    obtain ⟨space, value, tail, spaceBlank, valued, goes⟩ :=
      value_of_match descrItem key literal plain_c (by decide)
        (notMem_descrValue plain_c notName) early late cut
    cases valued with
    | @mk mark quote =>
      have solid : isSpace mark = false := by cases quote <;> rfl
      obtain ⟨rfl, behind⟩ := skip_blank spaceBlank solid rfl goes
      have notQuote : '\'' ∉ array.dtype.name := by cases array.dtype <;> decide
      exact eq_of_stop absent notQuote (behind.trans (append_assoc _ _ _))

theorem shape_found (header : HeaderText array text) {captured : List Char}
    (hit : search shapeRegex text = some captured) :
      (pieces ',' captured).filterMap stoul = array.shape := by
  cases header with
  | @mk lead descr order shape trailing pad items leadBlank descrItem orderItem shapeItem arranged
    ended padBlank =>
    have notOrder : 'p' ∉ order := by
      refine notMem_item orderItem plain_p (by decide) fun value valued => ?_
      rw [valued]
      cases array.fortranOrder <;> decide
    have notName : 'p' ∉ array.dtype.name := by cases array.dtype <;> decide
    have notDescr : 'p' ∉ descr :=
      notMem_item descrItem plain_p (by decide) (notMem_descrValue plain_p notName)
    have moved : ([descr, order] ++ [shape]).Perm ([shape] ++ [descr, order]) := perm_append_comm
    have shapeFirst : items.Perm [shape, descr, order] := arranged.trans moved
    obtain ⟨front, back, early, late, whole⟩ :=
      exists_around shapeFirst plain_p (by simpa using ⟨notDescr, notOrder⟩) leadBlank
        ended padBlank
    obtain ⟨before, rest, cut, matched⟩ := exists_of_search hit
    obtain ⟨absent, more, rfl⟩ := exists_of_captureUntil matched
    have key : "shape".toList = "sha".toList ++ 'p' :: "e".toList := by decide
    have literal : "shape': ".toList = "sha".toList ++ 'p' ::
        ("e".toList ++ ['\'', ':', ' ']) := by decide
    have parenthesis : "shape': (".toList = "shape': ".toList ++ ['('] := by decide
    rw [whole, parenthesis, append_assoc] at cut
    obtain ⟨space, value, tail, spaceBlank, valued, goes⟩ :=
      value_of_match shapeItem key literal plain_p (by decide)
        (notMem_tupleValue plain_p rfl (by decide) (by decide))
        early late cut
    obtain ⟨inner, rfl, missing, dimensions⟩ := exists_of_tuple valued (dimension_lt array)
    obtain ⟨-, behind⟩ := skip_blank spaceBlank rfl rfl goes
    rw [eq_of_stop absent missing (behind.trans (append_assoc _ _ _))]
    exact dimensions

theorem fortranOrder_found (header : HeaderText array text) {flag : Bool}
    (hit : search fortranOrderRegex text = some flag) : flag = array.fortranOrder := by
  cases header with
  | @mk lead descr order shape trailing pad items leadBlank descrItem orderItem shapeItem arranged
    ended padBlank =>
    have notName : '_' ∉ array.dtype.name := by cases array.dtype <;> decide
    have notDescr : '_' ∉ descr :=
      notMem_item descrItem plain_underscore (by decide)
        (notMem_descrValue plain_underscore notName)
    have notShape : '_' ∉ shape := notMem_item shapeItem plain_underscore (by decide)
      (notMem_tupleValue plain_underscore rfl (by decide) (by decide))
    have notFlag : ∀ value, value = flagName array.fortranOrder → '_' ∉ value := by
      intro value valued
      rw [valued]
      cases array.fortranOrder <;> decide
    obtain ⟨front, back, early, late, whole⟩ :=
      exists_around (arranged.trans (List.Perm.swap order descr [shape]))
      plain_underscore (by simpa using ⟨notDescr, notShape⟩) leadBlank ended padBlank
    obtain ⟨before, rest, cut, matched⟩ := exists_of_search hit
    obtain ⟨behind, dropped, named⟩ := Option.bind_eq_some_iff.mp matched
    rw [exists_of_dropPrefix dropped, whole] at cut
    have key : "fortran_order".toList = "fortran".toList ++ '_' :: "order".toList := by decide
    have literal : "fortran_order': ".toList =
        "fortran".toList ++ '_' :: ("order".toList ++ ['\'', ':', ' ']) := by decide
    obtain ⟨space, value, tail, spaceBlank, rfl, goes⟩ :=
      value_of_match orderItem key literal plain_underscore (by decide) notFlag early late cut
    obtain ⟨rest, rfl⟩ := exists_of_flag named
    have true_ : flagName true = 'T' :: "rue".toList := by decide
    have false_ : flagName false = 'F' :: "alse".toList := by decide
    cases flag <;> cases stored : array.fortranOrder
    · rfl
    · rw [stored, false_, true_] at goes
      exact absurd (skip_blank spaceBlank rfl rfl goes).1 (by decide)
    · rw [stored, false_, true_] at goes
      exact absurd (skip_blank spaceBlank rfl rfl goes).1 (by decide)
    · rfl

/-- What the reader takes from a header text of the format is what the text says. -/
theorem header_of_headerText (written : HeaderText array text) {header : NumpyHeader}
    (parsed : parseHeader text = .ok header) :
    header = ⟨array.dtype.itemSize, array.shape, array.fortranOrder⟩ := by
  obtain ⟨dtype, descr, parsed⟩ := exists_of_bind_ok parsed
  obtain ⟨size, sized, parsed⟩ := exists_of_bind_ok parsed
  obtain ⟨shape, shaped, parsed⟩ := exists_of_bind_ok parsed
  obtain ⟨flag, ordered, parsed⟩ := exists_of_bind_ok parsed
  cases parsed
  have sameSize : size = array.dtype.itemSize := by
    rw [descr_found written (found_ok descr)] at sized
    cases kind : array.dtype <;> rw [kind] at sized <;> cases sized <;> rfl
  rw [sameSize, shape_found written (found_ok shaped),
    fortranOrder_found written (found_ok ordered)]

end Found

end NumpyTensorFileFormat

end EmbedCache.Serialization
