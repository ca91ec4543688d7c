import EmbedCache.Serialization
import EmbedCache.Lib.TextSearch

/-! The `.npy` format, as its writers use it: arrays, the order of their elements, header texts,
files.

The header is a Python dictionary with three items, in any order, with any white space between
the tokens and either kind of quotation marks; the elements follow it in C or in Fortran order. -/

namespace EmbedCache.NumpyFormat

open Lib Lib.TextSearch

/-! ### Arrays -/

inductive Dtype
  | f4
  | f8
  | i4
  | i8
  deriving DecidableEq, Repr

def Dtype.name : Dtype → List Char
  | .f4 => "<f4".toList
  | .f8 => "<f8".toList
  | .i4 => "<i4".toList
  | .i8 => "<i8".toList

def Dtype.itemSize : Dtype → Nat
  | .f4 | .i4 => 4
  | .f8 | .i8 => 8

/-- The elements of an array are numbered by signed 64-bit integers; dimensions of zero do not
lift that limit for the others. -/
structure NpyArray where
  dtype : Dtype
  fortranOrder : Bool
  shape : List Nat
  addressable : (shape.filter (0 < ·)).prod * dtype.itemSize < 2 ^ 63

def Within : List Nat → List Nat → Prop := List.Forall₂ (· < ·)

def cPosition : (shape index : List Nat) → Nat
  | _ :: shape, coordinate :: index => coordinate * shape.prod + cPosition shape index
  | _, _ => 0

def fortranPosition : (shape index : List Nat) → Nat
  | dimension :: shape, coordinate :: index => coordinate + dimension * fortranPosition shape index
  | _, _ => 0

namespace NpyArray

variable (array : NpyArray)

def position (index : List Nat) : Nat :=
  if array.fortranOrder then fortranPosition array.shape index else cPosition array.shape index

def rowBytes : Nat := array.shape.tail.prod * array.dtype.itemSize

def totalBytes : Nat := array.shape.prod * array.dtype.itemSize

end NpyArray

theorem cPosition_lt {shape index : List Nat} (within : Within index shape) :
    cPosition shape index < shape.prod := by
  induction within with
  | nil => exact Nat.one_pos
  | @cons coordinate dimension index shape small _ ih =>
    calc cPosition (dimension :: shape) (coordinate :: index)
        = coordinate * shape.prod + cPosition shape index := rfl
      _ < coordinate * shape.prod + shape.prod := Nat.add_lt_add_left ih _
      _ = (coordinate + 1) * shape.prod := (Nat.succ_mul _ _).symm
      _ ≤ dimension * shape.prod := Nat.mul_le_mul_right _ small
      _ = (dimension :: shape).prod := List.prod_cons.symm

/-! ### Header texts -/

def Blank (text : List Char) : Prop := ∀ letter ∈ text, letter ∈ [' ', '\t', '\n', '\x0c', '\r']

inductive Quote : Char → Prop
  | single : Quote '\''
  | double : Quote '"'

inductive Item (key : List Char) (Value : List Char → Prop) : List Char → Prop
  | mk {lead gap space value tail : List Char} {mark : Char} (leadBlank : Blank lead)
    (quote : Quote mark)
      (gapBlank : Blank gap) (spaceBlank : Blank space) (valued : Value value)
        (tailBlank : Blank tail) :
      Item key Value (lead ++ mark :: (key ++ mark :: (gap ++ ':' :: (space ++ (value ++ tail)))))

inductive DescrValue (dtype : Dtype) : List Char → Prop
  | mk {mark : Char} (quote : Quote mark) : DescrValue dtype (mark :: (dtype.name ++ [mark]))

def flagName (flag : Bool) : List Char := if flag then "True".toList else "False".toList

/-- The elements of a tuple; there may be a comma behind the last. -/
inductive Elements : List Nat → List Char → Prop
  | last {lead tail : List Char} (n : Nat) (leadBlank : Blank lead) (tailBlank : Blank tail) :
      Elements [n] (lead ++ (Nat.toDigits 10 n ++ tail))
  | comma {lead tail behind : List Char} (n : Nat) (leadBlank : Blank lead) (tailBlank : Blank tail)
      (behindBlank : Blank behind) :
        Elements [n] (lead ++ (Nat.toDigits 10 n ++ tail) ++ ',' :: behind)
  | more {lead tail rest : List Char} {others : List Nat} (n : Nat) (leadBlank : Blank lead)
    (tailBlank : Blank tail)
      (listed : Elements others rest) :
        Elements (n :: others) (lead ++ (Nat.toDigits 10 n ++ tail) ++ ',' :: rest)

/-- Parentheses around a single number without a comma do not make a tuple. -/
inductive TupleValue : List Nat → List Char → Prop
  | empty {blank : List Char} (isBlank : Blank blank) : TupleValue [] ('(' :: (blank ++ [')']))
  | elements {dimensions : List Nat} {text : List Char} (listed : Elements dimensions text)
      (tuple : dimensions.length = 1 → ',' ∈ text) : TupleValue dimensions ('(' :: (text ++ [')']))

inductive Trailing : List Char → Prop
  | none : Trailing []
  | comma {blank : List Char} (isBlank : Blank blank) : Trailing (',' :: blank)

inductive HeaderText (array : NpyArray) : List Char → Prop
  | mk {lead descr order shape trailing pad : List Char} {items : List (List Char)}
    (leadBlank : Blank lead)
      (descrItem : Item "descr".toList (DescrValue array.dtype) descr)
      (orderItem : Item "fortran_order".toList (· = flagName array.fortranOrder) order)
      (shapeItem : Item "shape".toList (TupleValue array.shape) shape)
      (arranged : items.Perm [descr, order, shape]) (ended : Trailing trailing)
        (padBlank : Blank pad) :
      HeaderText array (lead ++ '\x7b' :: ([','].intercalate items ++ (trailing ++ '\x7d' :: pad)))

/-! ### Files -/

structure File where
  bytes : Nat → UInt8
  size : Nat

inductive Version
  | one
  | two
  deriving DecidableEq, Repr

def Version.number : Version → UInt8
  | .one => 1
  | .two => 2

def Version.lengthBytes : Version → Nat
  | .one => 2
  | .two => 4

def magic : List UInt8 := [0x93, 0x4e, 0x55, 0x4d, 0x50, 0x59]

def letters (bytes : List UInt8) : List Char := bytes.map fun byte => Char.ofNat byte.toNat

def headerLength (file : File) (version : Version) : Nat :=
  (ofLittleEndian version.lengthBytes fun i => file.bytes (8 + i)).toNat

/-- The parts of a file in front of the elements: the magic text, the version, the length of the
header, the header; the elements start at `offset`. -/
structure Framed (file : File) (version : Version) (text : List Char) (offset : Nat) : Prop where
  magic : readRange file.bytes 0 6 = magic
  major : file.bytes 6 = version.number
  minor : file.bytes 7 = 0
  header :
    text = letters (readRange file.bytes (8 + version.lengthBytes) (headerLength file version))
  elements : offset = 8 + version.lengthBytes + headerLength file version
  complete : offset ≤ file.size

theorem Framed.unique {file : File} {version other : Version} {text text' : List Char}
    {offset offset' : Nat}
    (framed : Framed file version text offset) (again : Framed file other text' offset') :
    text = text' ∧ offset = offset' := by
  have same : version = other := by
    have number := framed.major.symm.trans again.major
    cases version <;> cases other <;> first | rfl | exact absurd number (by decide)
  subst same
  exact ⟨framed.header.trans again.header.symm, framed.elements.trans again.elements.symm⟩

structure NpyFile (file : File) (array : NpyArray) (offset : Nat) : Prop where
  framed : ∃ version text, Framed file version text offset ∧ HeaderText array text
  complete : offset + array.totalBytes ≤ file.size

def elementByte (file : File) (array : NpyArray) (offset : Nat) (index : List Nat) (byte : Nat) :
    UInt8 :=
  file.bytes (offset + array.position index * array.dtype.itemSize + byte)

end EmbedCache.NumpyFormat
