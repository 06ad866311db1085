import Relaxation.Yaml.Text

/-!
# Literal and folded scalars

The scalars that hold whole lines. Their lines are indented by as much as the header says or, if
it says nothing, by as much as the first line that is not blank. In a folded scalar the break
between two lines that start without blanks becomes a space. What stays of the breaks after the
last line is chosen in the header.
-/

namespace Relaxation.Yaml

/-- Which of the line breaks at the end of a block scalar stay. -/
inductive Chomping where
  | strip
  | clip
  | keep
  deriving Repr, DecidableEq, Inhabited

/-- What stands after the bar or the angle of a block scalar. -/
structure BlockHeader where
  chomping : Chomping
  /-- By how much the lines are indented beyond what surrounds them, if that is said. -/
  indent : Option Nat
  deriving Repr, Inhabited

namespace BlockHeader

def chomping? : List Char → Option (Chomping × List Char)
  | '+' :: cs => some (.keep, cs)
  | '-' :: cs => some (.strip, cs)
  | _ => none

def indent? : List Char → Option (Nat × List Char)
  | c :: cs => if c.isDigit then some (c.toNat - '0'.toNat, cs) else none
  | [] => none

/-- Reads the two indicators, which may stand in either order or be left out. -/
def indicators (cs : List Char) : BlockHeader × List Char :=
  match chomping? cs with
  | some (chomping, cs) =>
    match indent? cs with
    | some (n, cs) => (⟨chomping, some n⟩, cs)
    | none => (⟨chomping, none⟩, cs)
  | none =>
    match indent? cs with
    | some (n, cs) =>
      match chomping? cs with
      | some (chomping, cs) => (⟨chomping, some n⟩, cs)
      | none => (⟨.clip, some n⟩, cs)
    | none => (⟨.clip, none⟩, cs)

/-- Reads a header to the end of its line. Lines cannot be indented by nothing. -/
def read? (s : Cursor) : Option (BlockHeader × Cursor) := do
  let (header, rest) := indicators s.rest
  if header.indent == some 0 then failure
  return (header, ← (s.advanceTo rest).endLine?)

end BlockHeader

/-- The largest number of spaces that start one of the lines up to the first one with more than
spaces. No tab may stand where that one begins. -/
def leadingIndent? (column largest : Nat) : List Char → Option Nat
  | [] => some (max column largest)
  | c :: cs =>
    if c == ' ' then leadingIndent? (column + 1) largest cs
    else if isBreak c then leadingIndent? 0 (max column largest) cs
    else if c == '\t' then none
    else some (max column largest)

/-- What has been read of a block scalar, backwards. -/
structure Lines where
  text : List Char
  /-- The break that ended the last line, if there was one. -/
  lineBreak : Option Char
  /-- The breaks of the blank lines after it. -/
  blankLines : List Char
  /-- Whether the last line starts with a blank. -/
  startsBlank : Bool
  /-- Whether the last line has not ended. -/
  inLine : Bool
  deriving Repr, Inhabited

namespace Lines

def none : Lines := ⟨[], .none, [], false, false⟩

/-- The text with the break of the last line. -/
def ended (x : Lines) : List Char := x.lineBreak.toList ++ x.text

/-- Whether the break before a line that starts with `c` is folded. -/
def folds (literal : Bool) (c : Char) (x : Lines) : Bool :=
  !literal && x.lineBreak == some '\n' && !x.startsBlank && !isBlank c

def startLine (literal : Bool) (c : Char) (x : Lines) : Lines :=
  let before :=
    if x.folds literal c then (if x.blankLines.isEmpty then ' ' :: x.text else x.text)
    else x.ended
  ⟨c :: (x.blankLines ++ before), .none, [], isBlank c, true⟩

def push (c : Char) (x : Lines) : Lines := { x with text := c :: x.text }

def endLine (c : Char) (x : Lines) : Lines := { x with lineBreak := some c, inLine := false }

def blankLine (c : Char) (x : Lines) : Lines := { x with blankLines := c :: x.blankLines }

/-- The text of the scalar, backwards. -/
def chomp (x : Lines) : Chomping → List Char
  | .strip => x.text
  | .clip => x.ended
  | .keep => x.blankLines ++ x.ended

end Lines

/-- Reads the lines of a block scalar, which are indented by `indent`. They end where one is
indented by less. -/
def readLines (literal : Bool) (indent : Nat) (x : Lines) (p : Place) :
    List Char → Option (Lines × Cursor)
  | [] => some (x, ⟨p, []⟩)
  | c :: cs =>
    if x.inLine then
      if isBreak c then readLines literal indent (x.endLine c) p.nextLine cs
      else readLines literal indent (x.push c) (p.next c) cs
    else if p.column < indent && c == ' ' then readLines literal indent x (p.next c) cs
    else if p.column < indent && c == '\t' then none
    else if isBreak c then readLines literal indent (x.blankLine c) p.nextLine cs
    else if p.column == indent then readLines literal indent (x.startLine literal c) (p.next c) cs
    else some (x, ⟨p, c :: cs⟩)

/-- Reads a block scalar after its bar or angle. What surrounds it is indented by less than
`margin`. -/
def readBlock (literal : Bool) (margin : Nat) (s : Cursor) : Option (String × Cursor) := do
  let (header, s) ← BlockHeader.read? s
  let indent ← match header.indent with
    | some n => pure (margin - 1 + n)
    | none => (leadingIndent? 0 0 s.rest).map fun n => max 1 (max margin n)
  let (x, s) ← readLines literal indent .none s.place s.rest
  return (String.ofList (x.chomp header.chomping).reverse, s)

end Relaxation.Yaml
