import Relaxation.Yaml.BlockScalar
import Relaxation.Yaml.Token.Basic

/-!
# From text to tokens

A key is seen only when its colon is reached. Until then its place is kept, and its tokens are put
in front of what was read since. A key stands on one line and begins at most 1024 octets before
its colon. A block collection begins with its first entry and ends where a token stands to
the left of it; inside flow collections columns do not matter.
-/

namespace Relaxation.Yaml

/-- A place where a key may have begun. -/
structure PossibleKey where
  place : Place
  /-- The number of tokens before it. -/
  position : Nat
  /-- Whether nothing but a key can stand there. -/
  required : Bool
  deriving Repr, Inhabited

structure Lexer where
  cursor : Cursor
  /-- The tokens read so far, the latest first. -/
  tokens : List Token
  count : Nat
  /-- The columns of the open block collections, the innermost first. -/
  columns : List Nat
  /-- The key that may have begun in the innermost collection. -/
  key : Option PossibleKey
  /-- The keys that may have begun outside of each of the open flow collections. -/
  outer : List (Option PossibleKey)
  /-- Whether a key or a block collection may begin at the next token. -/
  keyAllowed : Bool
  deriving Repr, Inhabited

namespace Lexer

def start (cs : List Char) : Lexer := ⟨⟨⟨0, 0, 0⟩, cs⟩, [], 0, [], none, [], true⟩

def inFlow (l : Lexer) : Bool := !l.outer.isEmpty

/-- The least column to the right of the innermost block collection. -/
def margin (l : Lexer) : Nat :=
  match l.columns with
  | [] => 0
  | column :: _ => column + 1

def emit (t : Token) (l : Lexer) : Lexer := { l with tokens := t :: l.tokens, count := l.count + 1 }

/-- Puts a token in front of all but the first `position` ones. -/
def insert (position : Nat) (t : Token) (l : Lexer) : Lexer :=
  { l with tokens := l.tokens.insertIdx (l.count - position) t, count := l.count + 1 }

def moveTo (s : Cursor) (l : Lexer) : Lexer := { l with cursor := s }

def advance (n : Nat) (l : Lexer) : Lexer := l.moveTo (l.cursor.advance n)

/-- Ends the block collections at columns from `least` on. -/
def closeBlocks (least : Nat) (l : Lexer) : Lexer :=
  if l.inFlow then l
  else
    let closed := (l.columns.takeWhile (least ≤ ·)).length
    { l with
      columns := l.columns.drop closed
      tokens := List.replicate closed .blockEnd ++ l.tokens
      count := l.count + closed }

/-- Begins a block collection at a column, unless one of that column or one further right is
open. -/
def openBlock (column position : Nat) (t : Token) (l : Lexer) : Lexer :=
  if l.inFlow || column < l.margin then l
  else { l.insert position t with columns := column :: l.columns }

/-- Gives up the key that may have begun. -/
def dropKey? (l : Lexer) : Option Lexer :=
  if l.key.any (·.required) then none else some { l with key := none }

/-- Whether a key that began there can no longer be one. -/
def isStale (k : PossibleKey) (l : Lexer) : Bool :=
  let p := l.cursor.place
  k.place.line < p.line || k.place.octets + 1024 < p.octets

def dropStaleKey? (l : Lexer) : Option Lexer :=
  if l.key.any l.isStale then l.dropKey? else some l

/-- Keeps the place of a token that a key may begin with. -/
def saveKey? (l : Lexer) : Option Lexer := do
  if !l.keyAllowed then return l
  let l ← l.dropKey?
  let required := !l.inFlow && l.margin == l.cursor.place.column + 1
  return { l with key := some ⟨l.cursor.place, l.count, required⟩ }

/-- Reads over blanks, comments and line breaks. After a line break a key may begin in a block
collection, and where one may begin no tab may stand. -/
def skipFrom (flow keyAllowed comment : Bool) (p : Place) : List Char → Cursor × Bool
  | [] => (⟨p, []⟩, keyAllowed)
  | c :: cs =>
    if isBreak c then skipFrom flow (keyAllowed || !flow) false p.nextLine cs
    else if comment || c == ' ' || c == '\t' && (flow || !keyAllowed) || c == '#' ||
        c == byteOrderMark && p.column == 0 then
      skipFrom flow keyAllowed (comment || c == '#') (p.next c) cs
    else (⟨p, c :: cs⟩, keyAllowed)

def skip (l : Lexer) : Lexer :=
  let (cursor, keyAllowed) := skipFrom l.inFlow l.keyAllowed false l.cursor.place l.cursor.rest
  { l with cursor, keyAllowed }

/-- Reads a mark that stands by itself on the level of documents. -/
def mark? (t : Token) (l : Lexer) : Option Lexer := do
  let l ← (l.closeBlocks 0).dropKey?
  return ({ l with keyAllowed := false }.advance 3).emit t

def directive? (l : Lexer) : Option Lexer := do
  let l ← (l.closeBlocks 0).dropKey?
  let (d, s) ← Directive.read? (l.cursor.advance 1)
  return ({ l with keyAllowed := false }.moveTo s).emit (.directive d)

def flowStart? (t : Token) (l : Lexer) : Option Lexer := do
  let l ← l.saveKey?
  return ({ l with key := none, outer := l.key :: l.outer, keyAllowed := true }.advance 1).emit t

def flowEnd? (t : Token) (l : Lexer) : Option Lexer := do
  let l ← l.dropKey?
  let l := match l.outer with
    | key :: outer => { l with key, outer }
    | [] => l
  return ({ l with keyAllowed := false }.advance 1).emit t

def comma? (l : Lexer) : Option Lexer := do
  let l ← l.dropKey?
  return ({ l with keyAllowed := true }.advance 1).emit .flowEntry

/-- Begins a block collection at an indicator that is no key, where that is allowed. -/
def openHere? (t : Token) (l : Lexer) : Option Lexer :=
  if l.inFlow then some l
  else if l.keyAllowed then some (l.openBlock l.cursor.place.column l.count t)
  else none

def dash? (l : Lexer) : Option Lexer := do
  let l ← (← l.openHere? .blockSequenceStart).dropKey?
  return ({ l with keyAllowed := true }.advance 1).emit .blockEntry

/-- Reads the mark of a key that may be any node. -/
def explicitKey? (l : Lexer) : Option Lexer := do
  let l ← (← l.openHere? .blockMappingStart).dropKey?
  return ({ l with keyAllowed := !l.inFlow }.advance 1).emit .key

/-- Reads a colon, which makes a key of what may have been one. -/
def value? (l : Lexer) : Option Lexer := do
  let l ← match l.key with
    | some k =>
      let l := (l.insert k.position .key).openBlock k.place.column k.position .blockMappingStart
      pure { l with key := none, keyAllowed := false }
    | none => (l.openHere? .blockMappingStart).map fun l => { l with keyAllowed := !l.inFlow }
  return (l.advance 1).emit .value

/-- Reads the name of an anchor or an alias after its indicator. -/
def name? (s : Cursor) : Option (String × Cursor) :=
  let word := s.rest.takeWhile isWordChar
  let s := s.advance word.length
  if word.isEmpty ||
      !(startsApart s.rest || s.rest.head?.any "?:,]\x7d%@`".toList.contains) then none
  else some (String.ofList word, s)

def named? (t : String → Token) (l : Lexer) : Option Lexer := do
  let l ← l.saveKey?
  let (name, s) ← name? (l.cursor.advance 1)
  return ({ l with keyAllowed := false }.moveTo s).emit (t name)

def tag? (l : Lexer) : Option Lexer := do
  let l ← l.saveKey?
  let (t, s) ← Tag.read? l.inFlow l.cursor
  return ({ l with keyAllowed := false }.moveTo s).emit (.tag t)

def block? (style : ScalarStyle) (l : Lexer) : Option Lexer := do
  let l ← l.dropKey?
  let (text, s) ← readBlock (style == .literal) l.margin (l.cursor.advance 1)
  return ({ l with keyAllowed := true }.moveTo s).emit (.scalar style text)

/-- Reads a quoted scalar after its opening quote. -/
def quoted? (read : Words → Place → List Char → Option (Words × Cursor)) (l : Lexer) :
    Option Lexer := do
  let l ← l.saveKey?
  let s := l.cursor.advance 1
  let (w, s) ← read .none s.place s.rest
  return ({ l with keyAllowed := false }.moveTo s).emit
    (.scalar .quoted (String.ofList w.close.reverse))

/-- Reads a plain scalar. After it a key may begin if it ends at the start of a line. -/
def plain? (l : Lexer) : Option Lexer := do
  let l ← l.saveKey?
  let (w, s) ← readPlain l.inFlow l.margin .none l.cursor.place l.cursor.rest
  return ({ l with keyAllowed := w.gap.broken }.moveTo s).emit
    (.scalar .plain (String.ofList w.text.reverse))

/-- A character that no plain scalar starts with. -/
def isIndicator (c : Char) : Bool := "-?:,[]\x7b\x7d#&*!|>'\"%@`".toList.contains c

/-- Whether a plain scalar starts with `c` and goes on with `cs`. A dash, and outside of flow
collections a question mark or a colon, starts one if nothing sets it apart. -/
def startsPlain (flow : Bool) (c : Char) (cs : List Char) : Bool :=
  !isIndicator c && !isBlank c && !isBreak c ||
    (c == '-' || !flow && (c == '?' || c == ':')) && !startsApart cs

/-- Reads the token that starts with `c` and goes on with `cs`. -/
def token? (c : Char) (cs : List Char) (l : Lexer) : Option Lexer :=
  let p := l.cursor.place
  let flow := l.inFlow
  if p.column == 0 && c == '%' then l.directive?
  else if p.column == 0 && startsMark '-' (c :: cs) then l.mark? .documentStart
  else if p.column == 0 && startsMark '.' (c :: cs) then l.mark? .documentEnd
  else if c == '[' then l.flowStart? .flowSequenceStart
  else if c == '\x7b' then l.flowStart? .flowMappingStart
  else if c == ']' then l.flowEnd? .flowSequenceEnd
  else if c == '\x7d' then l.flowEnd? .flowMappingEnd
  else if c == ',' then l.comma?
  else if c == '-' && startsApart cs then l.dash?
  else if c == '?' && (flow || startsApart cs) then l.explicitKey?
  else if c == ':' && (flow || startsApart cs) then l.value?
  else if c == '*' then l.named? .alias
  else if c == '&' then l.named? .anchor
  else if c == '!' then l.tag?
  else if c == '|' && !flow then l.block? .literal
  else if c == '>' && !flow then l.block? .folded
  else if c == '\'' then l.quoted? readSingle
  else if c == '"' then l.quoted? (readDouble .none)
  else if startsPlain flow c cs then l.plain?
  else none

/-- Reads the rest of a text. Every token has a character of its own, which bounds the fuel. -/
def run (fuel : Nat) (l : Lexer) : Option (List Token) := do
  let l ← l.skip.dropStaleKey?
  let l := l.closeBlocks (l.cursor.place.column + 1)
  match fuel, l.cursor.rest with
  | _, [] => return (← (l.closeBlocks 0).dropKey?).tokens.reverse
  | 0, _ :: _ => none
  | fuel + 1, c :: cs => run fuel (← l.token? c cs)

end Lexer

/-- The tokens of a text, none if its characters make no tokens. -/
def tokens? (text : String) : Option (List Token) := do
  let cs ← characters? text
  (Lexer.start cs).run cs.length

end Relaxation.Yaml
