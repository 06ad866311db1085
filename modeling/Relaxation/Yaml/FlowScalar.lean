import Relaxation.Yaml.Text

/-!
# Plain and quoted scalars

The scalars whose lines are words to be joined: a line break between two words becomes a space,
further breaks stay, and blanks beside breaks do not count. A line and a paragraph separator stay
in any case, and so do all breaks after one that is escaped.
-/

namespace Relaxation.Yaml

/-- What has been read of the blanks and line breaks between two words, all backwards. -/
structure Gap where
  blanks : List Char
  breaks : List Char
  /-- Whether an escaped line break came first. -/
  escaped : Bool
  deriving Repr, Inhabited

namespace Gap

def none : Gap := ⟨[], [], false⟩

/-- Whether a new line began in the gap. -/
def broken (g : Gap) : Bool := g.escaped || !g.breaks.isEmpty

def isNone (g : Gap) : Bool := g.blanks.isEmpty && !g.broken

def blank (c : Char) (g : Gap) : Gap := if g.broken then g else { g with blanks := c :: g.blanks }

def lineBreak (c : Char) (g : Gap) : Gap := { g with breaks := c :: g.breaks }

/-- What becomes of line breaks, in reading order. -/
def fold : List Char → List Char
  | ['\n'] => [' ']
  | '\n' :: breaks => breaks
  | breaks => breaks

/-- The text of the gap, backwards. -/
def text (g : Gap) : List Char :=
  if g.escaped then g.breaks
  else if g.breaks.isEmpty then g.blanks
  else (fold g.breaks.reverse).reverse

end Gap

/-- What has been read of a scalar: its text, backwards, and the gap after it. -/
structure Words where
  text : List Char
  gap : Gap
  deriving Repr, Inhabited

namespace Words

def none : Words := ⟨[], .none⟩

/-- The text with the gap after it. -/
def close (w : Words) : List Char := w.gap.text ++ w.text

def push (c : Char) (w : Words) : Words := ⟨c :: w.close, .none⟩

def blank (c : Char) (w : Words) : Words := { w with gap := w.gap.blank c }

def lineBreak (c : Char) (w : Words) : Words := { w with gap := w.gap.lineBreak c }

/-- Begins a gap with an escaped line break. -/
def escapedBreak (w : Words) : Words := ⟨w.close, { Gap.none with escaped := true }⟩

end Words

/-- Whether a plain scalar ends before the word that starts with `c` and goes on with `cs`. -/
def endsPlain (flow : Bool) (margin : Nat) (w : Words) (p : Place) (c : Char) (cs : List Char) :
    Bool :=
  !w.gap.isNone && (!flow && p.column < margin || p.atMark (c :: cs) || c == '#') ||
    c == ':' && startsApart cs || flow && isFlowIndicator c

/-- Reads a plain scalar. The lines after its first one are indented by at least `margin`, by
spaces only, and of that a flow collection asks only the latter. There a colon before an indicator
is refused. -/
def readPlain (flow : Bool) (margin : Nat) (w : Words) (p : Place) :
    List Char → Option (Words × Cursor)
  | [] => some (w, ⟨p, []⟩)
  | c :: cs =>
    if isBreak c then readPlain flow margin (w.lineBreak c) p.nextLine cs
    else if c == '\t' && w.gap.broken && p.column < margin then none
    else if isBlank c then readPlain flow margin (w.blank c) (p.next c) cs
    else if endsPlain flow margin w p c cs then some (w, ⟨p, c :: cs⟩)
    else if flow && c == ':' && cs.head?.any (fun d => isFlowIndicator d || d == '?') then none
    else readPlain flow margin (w.push c) (p.next c) cs

/-- Reads a single-quoted scalar after its opening quote. -/
def readSingle (w : Words) (p : Place) : List Char → Option (Words × Cursor)
  | [] => none
  | '\'' :: '\'' :: cs => readSingle (w.push '\'') ((p.next '\'').next '\'') cs
  | '\'' :: cs => some (w, ⟨p.next '\'', cs⟩)
  | c :: cs =>
    if p.atMark (c :: cs) then none
    else if isBreak c then readSingle (w.lineBreak c) p.nextLine cs
    else if isBlank c then readSingle (w.blank c) (p.next c) cs
    else readSingle (w.push c) (p.next c) cs

/-- The character that a backslash before a letter stands for. -/
def escaped? : Char → Option Char
  | '0' => some (Char.ofNat 0)
  | 'a' => some (Char.ofNat 7)
  | 'b' => some (Char.ofNat 8)
  | 't' => some '\t'
  | '\t' => some '\t'
  | 'n' => some '\n'
  | 'v' => some (Char.ofNat 11)
  | 'f' => some (Char.ofNat 12)
  | 'r' => some (Char.ofNat 13)
  | 'e' => some (Char.ofNat 27)
  | ' ' => some ' '
  | '"' => some '"'
  | '/' => some '/'
  | '\\' => some '\\'
  | 'N' => some nextLine
  | '_' => some (Char.ofNat 0xA0)
  | 'L' => some lineSeparator
  | 'P' => some paragraphSeparator
  | _ => none

/-- The number of hexadecimal digits after a backslash and a letter. -/
def escapeWidth : Char → Nat
  | 'x' => 2
  | 'u' => 4
  | 'U' => 8
  | _ => 0

def hexDigit? (c : Char) : Option Nat :=
  if c.isDigit then some (c.toNat - '0'.toNat)
  else if 'a' ≤ c && c ≤ 'f' then some (c.toNat - 'a'.toNat + 10)
  else if 'A' ≤ c && c ≤ 'F' then some (c.toNat - 'A'.toNat + 10)
  else none

/-- What of an escape is still to be read: nothing, the letter after the backslash, or a number of
hexadecimal digits after a value. -/
inductive Escape where
  | none
  | letter
  | digits (count value : Nat)

/-- Reads a double-quoted scalar after its opening quote. -/
def readDouble (escape : Escape) (w : Words) (p : Place) :
    List Char → Option (Words × Cursor)
  | [] => none
  | c :: cs =>
    match escape with
    | .digits count value =>
      match hexDigit? c with
      | none => none
      | some d =>
        let value := 16 * value + d
        if 1 < count then readDouble (.digits (count - 1) value) w (p.next c) cs
        else if value.isValidChar then readDouble .none (w.push (Char.ofNat value)) (p.next c) cs
        else none
    | .letter =>
      if isBreak c then readDouble .none w.escapedBreak p.nextLine cs
      else if 0 < escapeWidth c then readDouble (.digits (escapeWidth c) 0) w (p.next c) cs
      else match escaped? c with
        | some d => readDouble .none (w.push d) (p.next c) cs
        | none => none
    | .none =>
      if p.atMark (c :: cs) then none
      else if c == '"' then some (w, ⟨p.next c, cs⟩)
      else if c == '\\' then readDouble .letter w (p.next c) cs
      else if isBreak c then readDouble .none (w.lineBreak c) p.nextLine cs
      else if isBlank c then readDouble .none (w.blank c) (p.next c) cs
      else readDouble .none (w.push c) (p.next c) cs

end Relaxation.Yaml
