import Relaxation.Yaml.Token.Lexer

/-!
# From tokens to documents

A document is put together with the collections that are still open, the innermost first, each of
which says what may come next. `Document.read?` gives `none` for a text that is no single
document.

Anchors are told apart by numbers. The anchor of a node has the number of names that were used
before it, and an alias has the number that its name has at that place. A name that is used again
is not counted twice, so a later anchor may have the same number; the number then means the node
that begins last.
-/

namespace Relaxation.Yaml

/-- How the nodes of a collection are marked. The entries of an indented block sequence may stand
at the column of the key before it, and an entry of a flow sequence may be a mapping of one
pair. -/
inductive Layout where
  | block
  | indentless
  | flow
  | pair
  deriving Repr, DecidableEq, Inhabited

/-- What the next node of a mapping will be. -/
inductive Slot where
  | key
  | value (key : Yaml)
  /-- A key without a value. -/
  | single
  deriving Repr, Inhabited

/-- What has been read of a collection, the latest first. -/
inductive Part where
  | items (ys : List Yaml)
  | entries (es : List (Yaml × Yaml)) (slot : Slot)
  deriving Repr, Inhabited

namespace Part

/-- Adds a node. -/
def give (y : Yaml) : Part → Part
  | items ys => items (y :: ys)
  | entries es .key => entries es (.value y)
  | entries es (.value k) => entries ((k, y) :: es) .key
  | entries es .single => entries ((y, .empty) :: es) .key

def toNode (tag : Option TypeTag) : Part → Yaml
  | items ys => .sequence tag ys.reverse
  | entries es _ => .mapping tag es.reverse

end Part

structure OpenCollection where
  layout : Layout
  tag : Option TypeTag
  /-- Which of the anchored nodes it is, in the order of their beginnings. -/
  serial : Option Nat
  part : Part
  deriving Repr, Inhabited

/-- The state of putting a document together. -/
structure Assembly where
  rest : List Token
  opened : List OpenCollection
  root : Option Yaml
  /-- What the tag handles stand for. -/
  handles : List (String × Octets)
  /-- The numbers of the anchor names. -/
  names : List (String × Nat)
  /-- The numbers of the anchored nodes, the latest first. -/
  numbers : List Nat
  /-- The anchored nodes that have been read, by their order. -/
  nodes : List (Nat × Yaml)
  size : Nat
  deriving Repr, Inhabited

namespace Assembly

/-- The handles that need no directive. -/
def knownHandles : List (String × Octets) :=
  [("!", Octets.ofString "!"), ("!!", Octets.ofString TypeTag.coreStem)]

/-- Adds a node to what is open, or makes it the root. -/
def give (y : Yaml) (a : Assembly) : Assembly :=
  match a.opened with
  | [] => { a with root := some y }
  | c :: cs => { a with opened := { c with part := c.part.give y } :: cs }

def giveEmpty (a : Assembly) : Assembly := { a.give .empty with size := a.size + 1 }

/-- Notes the anchor of a node that begins here, and gives its place among the anchored nodes. -/
def anchored (name : String) (a : Assembly) : Nat × Assembly :=
  let number := a.names.length
  let names := (name, number) :: a.names.filter (·.1 != name)
  (a.numbers.length, { a with names, numbers := number :: a.numbers })

def remember (serial : Option Nat) (y : Yaml) (a : Assembly) : Assembly :=
  match serial with
  | some n => { a with nodes := (n, y) :: a.nodes }
  | none => a

/-- Ends the innermost collection. -/
def close (a : Assembly) : Assembly :=
  match a.opened with
  | [] => a
  | c :: opened =>
    let y := c.part.toNode c.tag
    (({ a with opened, size := a.size + 1 }.remember c.serial y).give y)

/-- The octets of a tag. -/
def tag? (a : Assembly) (t : Tag) : Option Octets :=
  if t.handle.isEmpty then some t.suffix else (a.handles.lookup t.handle).map (· ++ t.suffix)

/-- Reads an anchor and a tag, in either order, of which each may be missing. -/
def properties : List Token → Option String × Option Tag × List Token
  | .anchor name :: .tag t :: ts | .tag t :: .anchor name :: ts => (some name, some t, ts)
  | .anchor name :: ts => (some name, none, ts)
  | .tag t :: ts => (none, some t, ts)
  | ts => (none, none, ts)

/-- Begins a collection before the tokens `rest`. -/
def begin (layout : Layout) (tag : Option TypeTag) (serial : Option Nat) (part : Part)
    (rest : List Token) (a : Assembly) : Assembly :=
  { a with rest, opened := ⟨layout, tag, serial, part⟩ :: a.opened, size := a.size + 1 }

def giveScalar (tag : Option TypeTag) (serial : Option Nat) (style : ScalarStyle) (text : String)
    (rest : List Token) (a : Assembly) : Assembly :=
  let y := .scalar tag style text
  ({ a with rest, size := a.size + 1 }.remember serial y).give y

/-- Reads the beginning of a node, or all of it. Block collections may begin only where `block` is
set, and one without indentation only where `level` is set. A node of which there is only an anchor
or a tag is empty. -/
def node? (block level : Bool) (a : Assembly) : Option Assembly :=
  match a.rest with
  | .alias name :: rest => do
    return { a with rest, size := a.size + 1 }.give (.alias (← a.names.lookup name))
  | tokens => do
    let (name, t, tokens) := properties tokens
    let tag ← match t with
      | some t => TypeTag.ofOctets? <$> a.tag? t
      | none => pure none
    let (serial, a) := match name with
      | some name => (a.anchored name).map some id
      | none => (none, a)
    match tokens, block, level with
    | .scalar style text :: rest, _, _ => return a.giveScalar tag serial style text rest
    | .flowSequenceStart :: rest, _, _ => return a.begin .flow tag serial (.items []) rest
    | .flowMappingStart :: rest, _, _ => return a.begin .flow tag serial (.entries [] .key) rest
    | .blockSequenceStart :: rest, true, _ => return a.begin .block tag serial (.items []) rest
    | .blockMappingStart :: rest, true, _ =>
      return a.begin .block tag serial (.entries [] .key) rest
    | .blockEntry :: _, _, true => return a.begin .indentless tag serial (.items []) tokens
    | _, _, _ =>
      if name.isSome || t.isSome then return a.giveScalar tag serial .plain "" tokens else none

/-- Reads a node before the tokens `rest`, or takes it as empty if one of `stops` comes next. -/
def nodeBefore? (stops : List Token) (block level : Bool) (rest : List Token) (a : Assembly) :
    Option Assembly :=
  if rest.head?.any stops.contains then some { a with rest }.giveEmpty
  else { a with rest }.node? block level

/-- Reads an entry of a flow sequence, or its end. -/
def flowItem? (rest : List Token) (a : Assembly) : Option Assembly :=
  match rest with
  | .flowSequenceEnd :: rest => some { a with rest }.close
  | .key :: rest => some (a.begin .pair none none (.entries [] .key) rest)
  | rest => { a with rest }.node? false false

/-- Lets the next node of the innermost mapping be a key without a value, which counts as an empty
scalar. -/
def single (a : Assembly) : Assembly :=
  match a.opened with
  | ⟨layout, tag, serial, .entries es _⟩ :: opened =>
    { a with opened := ⟨layout, tag, serial, .entries es .single⟩ :: opened, size := a.size + 1 }
  | _ => a

/-- Reads a key of a flow mapping, or its end. -/
def flowKey? (rest : List Token) (a : Assembly) : Option Assembly :=
  match rest with
  | .flowMappingEnd :: rest => some { a with rest }.close
  | .key :: rest => a.nodeBefore? [.value, .flowEntry, .flowMappingEnd] false false rest
  | rest => { a.single with rest }.node? false false

/-- Goes one step on in the innermost collection. -/
def step? (a : Assembly) : Option Assembly :=
  match a.opened with
  | [] => none
  | c :: _ =>
    match c.layout, c.part, a.rest with
    | .block, .items _, .blockEntry :: rest =>
      a.nodeBefore? [.blockEntry, .blockEnd] true false rest
    | .block, .items _, .blockEnd :: rest => some { a with rest }.close
    | .block, .items _, _ => none
    | .indentless, .items _, .blockEntry :: rest =>
      a.nodeBefore? [.blockEntry, .key, .value, .blockEnd] true false rest
    | .indentless, _, _ => some a.close
    | .block, .entries _ (.value _), .value :: rest =>
      a.nodeBefore? [.key, .value, .blockEnd] true true rest
    | .block, .entries _ (.value _), _ => some a.giveEmpty
    | .block, .entries _ _, .key :: rest => a.nodeBefore? [.key, .value, .blockEnd] true true rest
    | .block, .entries _ _, .blockEnd :: rest => some { a with rest }.close
    | .block, .entries _ _, _ => none
    | .flow, .items [], rest => a.flowItem? rest
    | .flow, .items _, .flowEntry :: rest => a.flowItem? rest
    | .flow, .items _, .flowSequenceEnd :: rest => some { a with rest }.close
    | .flow, .items _, _ => none
    | .flow, .entries _ (.value _), .value :: rest =>
      a.nodeBefore? [.flowEntry, .flowMappingEnd] false false rest
    | .flow, .entries _ (.value _), _ => some a.giveEmpty
    | .flow, .entries [] _, rest => a.flowKey? rest
    | .flow, .entries _ _, .flowEntry :: rest => a.flowKey? rest
    | .flow, .entries _ _, .flowMappingEnd :: rest => some { a with rest }.close
    | .flow, .entries _ _, _ => none
    | .pair, .entries [] (.value _), .value :: rest =>
      a.nodeBefore? [.flowEntry, .flowSequenceEnd] false false rest
    | .pair, .entries [] (.value _), _ => some a.giveEmpty
    | .pair, .entries [] _, rest =>
      if rest.head?.any [Token.value, .flowEntry, .flowSequenceEnd].contains then
        some { a with rest := rest.drop 1 }.giveEmpty
      else a.node? false false
    | .pair, _, _ => some a.close

/-- Reads on to the end of the root. -/
def run : Nat → Assembly → Option Assembly
  | 0, _ => none
  | fuel + 1, a => if a.root.isSome then some a else a.step?.bind (run fuel)

/-- The document, with the last node of each number. -/
def document? (a : Assembly) : Option Document := do
  let serials := List.range a.numbers.length
  let anchored := (a.numbers.zip serials.reverse).filterMap fun (number, serial) =>
    (a.nodes.lookup serial).map (number, ·)
  return ⟨← a.root, anchored, a.size⟩

end Assembly

/-- Reads the directives of a document: at most one for the version, which is one of the two known
ones, and at most one for each handle. -/
def directives? (handles : List (String × Octets)) (versioned : Bool) :
    List Token → Option (List (String × Octets) × List Token)
  | .directive (.version major minor) :: ts =>
    if versioned || major != 1 || minor != 1 && minor != 2 then none
    else directives? handles true ts
  | .directive (.handle handle stands) :: ts =>
    if (handles.lookup handle).isSome then none
    else directives? ((handle, stands) :: handles) versioned ts
  | ts => some (handles, ts)

namespace Document

/-- Reads the root of a document that starts with a mark. It is empty if another mark or the end
of the text comes next. -/
def marked? (a : Assembly) : Option Assembly :=
  match a.rest with
  | [] | .documentStart :: _ | .documentEnd :: _ | .directive _ :: _ => some a.giveEmpty
  | _ => a.node? true false

/-- Reads a text that is one document. It takes no more than four steps to read a token: one past
it, one for a missing node before it, one to begin a collection and one to end it. -/
def ofTokens? (tokens : List Token) : Option Document := do
  let (handles, rest) ← directives? [] false tokens
  let a : Assembly := ⟨rest, [], none, handles ++ Assembly.knownHandles, [], [], [], 0⟩
  let a ← match rest with
    | .documentStart :: rest => marked? { a with rest }
    | _ => if rest.length == tokens.length then a.node? true false else none
  let a ← a.run (4 * tokens.length + 4)
  if a.rest.all (· == .documentEnd) then a.document? else none

def read? (text : String) : Option Document := (tokens? text).bind ofTokens?

end Document
end Relaxation.Yaml
