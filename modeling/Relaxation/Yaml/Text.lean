/-!
# YAML text

The characters of a document and the place of a reader among them. All line breaks but the line
and paragraph separators are read as line feeds, so every break is a single character.
-/

namespace Relaxation.Yaml

def lineSeparator : Char := Char.ofNat 0x2028

def paragraphSeparator : Char := Char.ofNat 0x2029

def nextLine : Char := Char.ofNat 0x85

/-- A mark that may stand at the start of a line and means nothing there. -/
def byteOrderMark : Char := Char.ofNat 0xFEFF

/-- Whether a document may hold a character. Control characters are not text, tabs and line breaks
apart. -/
def isText (c : Char) : Bool :=
  let n := c.toNat
  c == '\t' || c == '\n' || c == '\r' || c == nextLine || 0x20 ≤ n && n ≤ 0x7E ||
    0xA0 ≤ n && n != 0xFFFE && n != 0xFFFF

/-- Reads line breaks of every kind as line feeds, except for the separators. -/
def unifyBreaks : List Char → List Char
  | [] => []
  | '\r' :: '\n' :: cs => '\n' :: unifyBreaks cs
  | c :: cs => (if c == '\r' || c == nextLine then '\n' else c) :: unifyBreaks cs

/-- The characters to be read, none for a text that no document can be. -/
def characters? (text : String) : Option (List Char) :=
  let cs := text.toList
  if cs.all isText then some (unifyBreaks cs) else none

def isBreak (c : Char) : Bool := c == '\n' || c == lineSeparator || c == paragraphSeparator

def isBlank (c : Char) : Bool := c == ' ' || c == '\t'

/-- A character of names of anchors, directives and tag handles. -/
def isWordChar (c : Char) : Bool := c.isAlphanum || c == '-' || c == '_'

/-- A character that means something in flow collections wherever it stands. -/
def isFlowIndicator (c : Char) : Bool :=
  c == ',' || c == '[' || c == ']' || c == '\x7b' || c == '\x7d'

/-- Whether a text starts with a blank or a line break, or is empty. -/
def startsApart : List Char → Bool
  | [] => true
  | c :: _ => isBlank c || isBreak c

/-- Whether a text starts with a line break or is empty. -/
def startsBreak : List Char → Bool
  | [] => true
  | c :: _ => isBreak c

/-- Whether a text starts with three of a character, alone. -/
def startsMark (mark : Char) (cs : List Char) : Bool :=
  cs.take 3 == [mark, mark, mark] && startsApart (cs.drop 3)

/-- A place among the lines of a text, both counted from zero. -/
structure Place where
  line : Nat
  column : Nat
  /-- The number of octets that the line before it takes in UTF-8. -/
  octets : Nat
  deriving Repr, DecidableEq, Inhabited

namespace Place

/-- The place after a character. -/
def next (p : Place) (c : Char) : Place := ⟨p.line, p.column + 1, p.octets + c.utf8Size⟩

def nextLine (p : Place) : Place := ⟨p.line + 1, 0, 0⟩

/-- Whether a line at this place, with `cs` after it, marks the start or the end of a document. -/
def atMark (p : Place) (cs : List Char) : Bool :=
  p.column == 0 && (startsMark '-' cs || startsMark '.' cs)

end Place

/-- A text still to be read and its place. -/
structure Cursor where
  place : Place
  rest : List Char
  deriving Repr, Inhabited

namespace Cursor

/-- Reads over `n` characters of the line. -/
def advance (n : Nat) (s : Cursor) : Cursor :=
  ⟨(s.rest.take n).foldl Place.next s.place, s.rest.drop n⟩

/-- Reads over the characters of the line up to where `rest` is left. -/
def advanceTo (rest : List Char) (s : Cursor) : Cursor :=
  s.advance (s.rest.length - rest.length)

/-- Reads over characters of the line that fulfil `p`. -/
def skipWhile (p : Char → Bool) (s : Cursor) : Cursor := s.advance (s.rest.takeWhile p).length

def skipBlanks (s : Cursor) : Cursor := s.skipWhile isBlank

/-- Reads over blanks and a comment to the end of the line, and over its break. Nothing else may
stand there. -/
def endLine? (s : Cursor) : Option Cursor :=
  let s := s.skipBlanks
  let s := if s.rest.head? == some '#' then s.skipWhile fun c => !isBreak c else s
  match s.rest with
  | [] => some s
  | c :: cs => if isBreak c then some ⟨s.place.nextLine, cs⟩ else none

end Cursor
end Relaxation.Yaml
