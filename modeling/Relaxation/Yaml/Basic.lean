/-!
# YAML documents

A document as it is written. A scalar keeps its text, its style and what its tag says, since what
it means depends on what is expected in its place. An alias stands for the node of an anchor, which
is told by a number, and a node may contain aliases of itself.
-/

namespace Relaxation

/-- How the text of a scalar is marked: not at all, by quotes, or by a bar or an angle in front
of lines of its own. -/
inductive ScalarStyle where
  | plain
  | quoted
  | literal
  | folded
  deriving Repr, DecidableEq, Inhabited

/-- The types of scalars whose tags in the core schema decide what a scalar means. -/
inductive CoreType where
  | flag
  | integer
  | float
  | null
  deriving Repr, DecidableEq, Inhabited

/-- What a tag says about the type of a node. -/
inductive TypeTag where
  | core (type : CoreType)
  /-- A tag that is private to an application, which gives no meaning to what it stands on. -/
  | application
  | foreign
  deriving Repr, DecidableEq, Inhabited

inductive Yaml where
  | alias (anchor : Nat)
  | scalar (tag : Option TypeTag) (style : ScalarStyle) (text : String)
  | sequence (tag : Option TypeTag) (items : List Yaml)
  | mapping (tag : Option TypeTag) (entries : List (Yaml × Yaml))
  deriving Repr, Inhabited

namespace Yaml

def plain (text : String) : Yaml := scalar none .plain text

def quoted (text : String) : Yaml := scalar none .quoted text

/-- The value of an empty place. -/
def empty : Yaml := plain ""

structure Document where
  root : Yaml
  /-- The nodes of the anchors. -/
  anchored : List (Nat × Yaml)
  /-- The number of scalars and aliases and of beginnings and ends of collections. -/
  size : Nat
  deriving Repr, Inhabited

/-- A document without anchors. Its size does not matter. -/
def Document.ofNode (y : Yaml) : Document := ⟨y, [], 0⟩

end Yaml
end Relaxation
