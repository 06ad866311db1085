import Relaxation.Yaml.Document
import Relaxation.Yaml.Scalar

/-!
# Values

What the nodes of a document mean by themselves: aliases are replaced by the nodes that they stand
for, and scalars are understood by the core schema. Collections may be nested only so deep, and
all in all no more than a hundred aliases for each node are replaced, so a value is always
finite and of moderate size.
-/

namespace Relaxation.Yaml

inductive Value where
  | scalar (s : Scalar)
  | sequence (items : List Value)
  | mapping (entries : List (Value × Value))
  deriving Repr, Inhabited

/-- A step of a reader of documents, which keeps the number of aliases that may still be
replaced. -/
abbrev Reader := StateT Nat Option

/-- A step that cannot be taken when there is no value. -/
def Reader.of {β : Type} (b : Option β) : Reader β := StateT.lift b

namespace Document

/-- Runs a reader of a document. -/
def readWith {β : Type} (reader : Document → Yaml → Reader β) (d : Document) : Option β :=
  ((reader d d.root).run (100 * d.size)).map Prod.fst

/-- Replaces a node that is an alias. -/
def follow (d : Document) : Yaml → Reader Yaml
  | .alias anchor => do
    let n ← get
    if n == 0 then failure
    set (n - 1)
    Reader.of (d.anchored.lookup anchor)
  | y => return y

/-- The text of a scalar, whatever it means. -/
def text (d : Document) (y : Yaml) : Reader String := do
  match ← d.follow y with
  | .scalar _ _ text => return text
  | _ => failure

/-- Fails on a collection that has a tag of an application. -/
def untagged (tag : Option TypeTag) : Reader Unit :=
  if tag = some .application then failure else pure ()

/-- The value of a node with at most `depth` collections inside each other. -/
def value (d : Document) : Nat → Yaml → Reader Value
  | depth, y => do
    match ← d.follow y, depth with
    | .scalar tag style text, _ => return .scalar (← Reader.of (Scalar.ofWritten? tag style text))
    | .sequence tag items, depth + 1 =>
      untagged tag
      return .sequence (← items.mapM (d.value depth))
    | .mapping tag entries, depth + 1 =>
      untagged tag
      return .mapping (← entries.mapM fun (k, y) => return (← d.value depth k, ← d.value depth y))
    | _, _ => failure

end Document
end Relaxation.Yaml
