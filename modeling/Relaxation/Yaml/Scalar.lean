import Relaxation.Decimal.Reading
import Relaxation.Yaml.Basic

/-!
# What plain scalars mean

The core schema: null and truth values in three spellings each, integers in four bases, decimal
and special floating-point numbers. `Scalar.ofPlain?` says what a plain scalar means by its text
alone, `Scalar.ofTagged?` minds its tag and its style, and `natural?`, `float?` and `flag?` read
one where the type is known in advance, which admits a few more spellings of numbers.
-/

namespace Relaxation.Yaml

/-- The meaning of a scalar. An integer with a minus sign stays apart, since only one without a
sign or with a plus can count something. -/
inductive Scalar where
  | null
  | flag (b : Bool)
  | natural (n : Nat)
  | negative (n : Nat)
  | float (x : Float)
  | text (s : String)
  deriving Repr, Inhabited

def digitValue? (base : Nat) (c : Char) : Option Nat :=
  let d :=
    if c.isDigit then some (c.toNat - '0'.toNat)
    else if 'a' ≤ c && c ≤ 'z' then some (c.toNat - 'a'.toNat + 10)
    else if 'A' ≤ c && c ≤ 'Z' then some (c.toNat - 'A'.toNat + 10)
    else none
  d.filter (· < base)

/-- The value of a non-empty run of digits in a base. -/
def digits? (base : Nat) (cs : List Char) : Option Nat :=
  if cs.isEmpty then none
  else cs.foldlM (fun n c => (digitValue? base c).map (base * n + ·)) 0

/-- Digits with a leading zero make no number, except zero itself. -/
def hasLeadingZero (cs : List Char) : Bool :=
  let cs := if cs.head? == some '-' || cs.head? == some '+' then cs.tail else cs
  1 < cs.length && cs.head? == some '0' && cs.all Char.isDigit

/-- Reads digits after a sign, in the base that a mark in front of them names. -/
def magnitude? : List Char → Option Nat
  | '0' :: 'x' :: cs => digits? 16 cs
  | '0' :: 'o' :: cs => digits? 8 cs
  | '0' :: 'b' :: cs => digits? 2 cs
  | cs => if hasLeadingZero cs then none else digits? 10 cs

/-- An integer by its magnitude and whether it has a minus sign, which zero may have too. -/
structure SignedNat where
  negative : Bool
  magnitude : Nat
  deriving Repr, DecidableEq

/-- Reads an integer of any size. -/
def integer? (text : String) : Option SignedNat :=
  match text.toList with
  | '-' :: cs => (magnitude? cs).map (⟨true, ·⟩)
  | '+' :: cs => (magnitude? cs).map (⟨false, ·⟩)
  | cs => (magnitude? cs).map (⟨false, ·⟩)

/-- Reads a finite decimal, or one of the names of the special numbers. The NaN that has a name
is the quiet one of positive sign. -/
def float? (text : String) : Option Float :=
  if [".inf", ".Inf", ".INF", "+.inf", "+.Inf", "+.INF"].contains text then some (1.0 / 0.0)
  else if ["-.inf", "-.Inf", "-.INF"].contains text then some (-1.0 / 0.0)
  else if [".nan", ".NaN", ".NAN"].contains text then some (Float.ofBits 0x7FF8000000000000)
  else (Decimal.readFloat? text).filter Float.isFinite

def flag? (text : String) : Option Bool :=
  if ["true", "True", "TRUE"].contains text then some true
  else if ["false", "False", "FALSE"].contains text then some false
  else none

/-- The number of values of 64 bits. -/
def wordSize : Nat := 0x10000000000000000

/-- Reads a natural number of 64 bits. -/
def natural? (text : String) : Option Nat :=
  match integer? text with
  | some ⟨false, n⟩ => if n < wordSize then some n else none
  | _ => none

def isNull (text : String) : Bool := ["", "~", "null", "Null", "NULL"].contains text

/-- Whether an integer fits into words with a given number of values, unsigned ones or, with a
minus sign, signed ones. -/
def SignedNat.fits (values : Nat) (i : SignedNat) : Bool :=
  if i.negative then i.magnitude ≤ values / 2 else i.magnitude < values

namespace Scalar

/-- The integer as a scalar, none if it has more than 64 bits. -/
def ofInteger? (i : SignedNat) : Option Scalar :=
  if i.fits wordSize then some (if i.negative then .negative i.magnitude else .natural i.magnitude)
  else none

/-- Reads an integer of at most 128 bits. A longer one is no integer. -/
def integer? (text : String) : Option SignedNat :=
  (Yaml.integer? text).filter (·.fits (wordSize * wordSize))

/-- The meaning of a plain scalar, none for an integer that no value has room for. -/
def ofPlain? (text : String) : Option Scalar :=
  if isNull text then some .null
  else
    match flag? text with
    | some b => some (.flag b)
    | none =>
      match integer? text with
      | some i => ofInteger? i
      | none =>
        if hasLeadingZero text.toList then some (.text text)
        else
          match float? text with
          | some x => some (.float x)
          | none => some (.text text)

/-- The meaning of a scalar with a tag. A tag of the core schema decides its type, whatever its
style is, and a foreign one makes it a text. -/
def ofTagged? (text : String) : TypeTag → Option Scalar
  | .core .flag => (flag? text).map .flag
  | .core .integer => (integer? text).bind ofInteger?
  | .core .float => (float? text).map .float
  | .core .null => if !text.isEmpty && isNull text then some .null else none
  | .application => none
  | .foreign => some (.text text)

/-- The meaning of a scalar. -/
def ofWritten? (tag : Option TypeTag) (style : ScalarStyle) (text : String) : Option Scalar :=
  match tag with
  | some tag => ofTagged? text tag
  | none => if style = .plain then ofPlain? text else some (.text text)

end Scalar

/-- Reads a scalar of a type known in advance from a plain text, whatever its tag is, or from a
literal one with the tag of the type. -/
def typed? {β : Type} (type : CoreType) (read? : String → Option β) : Yaml → Option β
  | scalar _ .plain text => read? text
  | scalar (some tag) .literal text => if tag = .core type then read? text else none
  | _ => none

end Relaxation.Yaml
