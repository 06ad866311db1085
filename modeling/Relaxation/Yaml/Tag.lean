import Relaxation.Yaml.Basic
import Relaxation.Yaml.FlowScalar

/-!
# Tags and directives

A tag is a handle and a suffix. A directive at the start of a document says what a handle stands
for. Suffixes and what handles stand for are made of the characters of a URI, of which any may be
written as octets in hexadecimal digits. They are strings of octets, which an octet of zero ends,
and need not be the encoding of a text.
-/

namespace Relaxation.Yaml

/-- A character of a URI, where brackets and commas are such only if `verbatim` is set. -/
def isUriChar (verbatim : Bool) (c : Char) : Bool :=
  isWordChar c || c == '\'' || ";/?:@&=+$.!~*()".toList.contains c ||
    verbatim && (c == ',' || c == '[' || c == ']')

/-- The number of octets after the first one of an encoded character. -/
def octetsAfter? (first : Nat) : Option Nat :=
  if first < 0x80 then some 0
  else if 0xC0 ≤ first && first < 0xE0 then some 1
  else if 0xE0 ≤ first && first < 0xF0 then some 2
  else if 0xF0 ≤ first && first < 0xF8 then some 3
  else none

/-- A string of octets. -/
abbrev Octets := List UInt8

namespace Octets

def ofString (s : String) : Octets := s.toUTF8.toList

/-- The octets before the first zero. -/
def untilZero (octets : Octets) : Octets := octets.takeWhile (· != 0)

def toString? (octets : Octets) : Option String := String.fromUTF8? ⟨octets.toArray⟩

end Octets

/-- Reads a URI, as octets backwards. The next `due` octets belong to a character that has begun. -/
def readUri (verbatim : Bool) (octets : Octets) (due : Nat) :
    List Char → Option (Octets × List Char)
  | '%' :: a :: b :: cs => do
    let octet := 16 * (← hexDigit? a) + (← hexDigit? b)
    match due with
    | 0 => readUri verbatim (octet.toUInt8 :: octets) (← octetsAfter? octet) cs
    | due + 1 =>
      if 0x80 ≤ octet && octet < 0xC0 then readUri verbatim (octet.toUInt8 :: octets) due cs
      else none
  | c :: cs =>
    if 0 < due || c == '%' then none
    else if isUriChar verbatim c then readUri verbatim (c.toNat.toUInt8 :: octets) 0 cs
    else some (octets, c :: cs)
  | [] => if 0 < due then none else some (octets, [])

/-- Reads a URI, which is not empty. -/
def uri? (verbatim : Bool) (cs : List Char) : Option (Octets × List Char) := do
  let (octets, rest) ← readUri verbatim [] 0 cs
  if octets.isEmpty then none else return (Octets.untilZero octets.reverse, rest)

/-- Reads what may be a handle: a word between two exclamation marks, of which the second may be
missing. -/
def handle? : List Char → Option (String × List Char)
  | '!' :: cs =>
    let word := cs.takeWhile isWordChar
    match cs.drop word.length with
    | '!' :: rest => some (String.ofList ('!' :: word ++ ['!']), rest)
    | rest => some (String.ofList ('!' :: word), rest)
  | _ => none

/-- Whether a handle has both of its exclamation marks. -/
def isWholeHandle (handle : String) : Bool :=
  match handle.toList with
  | '!' :: cs => cs.getLast? == some '!'
  | _ => false

/-- A tag, where the handle is empty if the suffix says all. -/
structure Tag where
  handle : String
  suffix : Octets
  deriving Repr, DecidableEq, Inhabited

namespace Tag

/-- Reads a tag after its exclamation mark and angle. -/
def verbatim? (cs : List Char) : Option (Tag × List Char) := do
  match ← uri? true cs with
  | (suffix, '>' :: rest) => return (⟨"", suffix⟩, rest)
  | _ => none

/-- Reads a tag with a handle. A word with only the first exclamation mark belongs to the suffix,
and the mark alone is a tag too. -/
def shorthand? (cs : List Char) : Option (Tag × List Char) := do
  let (handle, rest) ← handle? cs
  if isWholeHandle handle then
    let (suffix, rest) ← uri? false rest
    return (⟨handle, suffix⟩, rest)
  else
    let (octets, rest) ← readUri false (Octets.ofString handle).tail.reverse 0 rest
    let suffix := Octets.untilZero octets.reverse
    return (if suffix.isEmpty then ⟨"", Octets.ofString "!"⟩ else ⟨"!", suffix⟩, rest)

/-- Reads a tag, which stands apart from what follows it, or before a comma. -/
def read? (flow : Bool) (s : Cursor) : Option (Tag × Cursor) := do
  let (tag, rest) ← match s.rest with
    | '!' :: '<' :: cs => verbatim? cs
    | cs => shorthand? cs
  if startsApart rest || flow && rest.head? == some ',' then return (tag, s.advanceTo rest)
  else none

end Tag

namespace TypeTag

/-- What the tags of the core schema begin with. -/
def coreStem : String := "tag:yaml.org,2002:"

/-- The octets of the tag of a type of the core schema. -/
def ofCore (type : String) : Octets := Octets.ofString (coreStem ++ type)

/-- What a tag says by its octets. A tag that begins with an exclamation mark is private to an
application, but says nothing if its octets are no text. -/
def ofOctets? (octets : Octets) : Option TypeTag :=
  if octets.head? == some '!'.toUInt8 then octets.toString?.map fun _ => .application
  else if octets == ofCore "bool" then some (.core .flag)
  else if octets == ofCore "int" then some (.core .integer)
  else if octets == ofCore "float" then some (.core .float)
  else if octets == ofCore "null" then some (.core .null)
  else some .foreign

end TypeTag

inductive Directive where
  | version (major minor : Nat)
  | handle (handle : String) (stands : Octets)
  deriving Repr, DecidableEq, Inhabited

namespace Directive

/-- Reads a number of at most nine digits. -/
def number? (cs : List Char) : Option (Nat × List Char) :=
  let digits := cs.takeWhile Char.isDigit
  if digits.isEmpty || 9 < digits.length then none
  else
    some (digits.foldl (fun n c => 10 * n + (c.toNat - '0'.toNat)) 0, cs.drop digits.length)

def version? (cs : List Char) : Option (Directive × List Char) := do
  match ← number? cs with
  | (major, '.' :: cs) =>
    let (minor, rest) ← number? cs
    return (version major minor, rest)
  | _ => none

def handleMeaning? (cs : List Char) : Option (Directive × List Char) := do
  let (name, rest) ← handle? cs
  if name != "!" && !isWholeHandle name || !rest.head?.any isBlank then failure
  let (stands, rest) ← uri? true (rest.dropWhile isBlank)
  if !startsApart rest then failure
  return (handle name stands, rest)

/-- Reads a directive after its percent sign, to the end of its line. -/
def read? (s : Cursor) : Option (Directive × Cursor) := do
  let name := s.rest.takeWhile isWordChar
  let rest := s.rest.drop name.length
  if !startsApart rest then failure
  let content := rest.dropWhile isBlank
  let (directive, rest) ← match String.ofList name with
    | "YAML" => version? content
    | "TAG" => handleMeaning? content
    | _ => none
  return (directive, ← (s.advanceTo rest).endLine?)

end Directive
end Relaxation.Yaml
