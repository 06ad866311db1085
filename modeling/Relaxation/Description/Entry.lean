import Relaxation.Geometry.Face
import Relaxation.Scalar.Binary64
import Relaxation.Yaml.Value

/-!
# Entries

An entry of a list says its type and its parameters. It is a mapping with a field `type`, or a
sequence that begins with the type and goes on with the parameters in their order. In a mapping a
parameter is told by its name or by its place in that order; other fields are ignored, and a
parameter that is given twice makes the entry unreadable. Parameters that have a default stand
last in the order and may be left out.
-/

namespace Relaxation

namespace Yaml.Value

/-- Takes the nearest number for an integer. An integer has no negative zero. -/
def toNumber? : Value → Option Binary64
  | scalar (.natural n) => some (.ofFloat (Decimal.toFloat false ⟨n, 0⟩))
  | scalar (.negative n) => some (.ofFloat (Decimal.toFloat (n != 0) ⟨n, 0⟩))
  | scalar (.float x) => some (.ofFloat x)
  | _ => none

def toNat? : Value → Option Nat
  | scalar (.natural n) => some n
  | scalar (.negative 0) => some 0
  | _ => none

def toFlag? : Value → Option Bool
  | scalar (.flag b) => some b
  | _ => none

def isNull : Value → Bool
  | scalar .null => true
  | _ => false

def toList? {β : Type} (item? : Value → Option β) : Value → Option (List β)
  | sequence items => items.mapM item?
  | _ => none

def toVec3? : Value → Option (Vec3 Binary64)
  | sequence [x, y, z] => return ⟨← x.toNumber?, ← y.toNumber?, ← z.toNumber?⟩
  | _ => none

def toPoints? : Value → Option (List (Vec3 Binary64)) := toList? toVec3?

def toFace? : Value → Option Face
  | sequence [a, b, c] => return ⟨← a.toNat?, ← b.toNat?, ← c.toNat?⟩
  | _ => none

def toFaces? : Value → Option (List Face) := toList? toFace?

def toSegment? : Value → Option (Vec3 Binary64 × Vec3 Binary64)
  | sequence [a, b] => return (← a.toVec3?, ← b.toVec3?)
  | _ => none

end Yaml.Value

open Yaml (Value Document Reader)

/-- What is given for some names. -/
abbrev Fields (β : Type) := List (String × β)

namespace Fields

/-- What is given for a name: nothing or one thing, since a name given twice is refused. -/
def value? {β : Type} (fields : Fields β) (name : String) : Option (Option β) :=
  match fields.filter (·.1 == name) with
  | [] => some none
  | [(_, value)] => some (some value)
  | _ => none

section

variable {β γ : Type} {m : Type → Type} [Monad m] [MonadLiftT Option m]

def required? (fields : Fields β) (name : String) (read? : β → m γ) : m γ := do
  read? (← (fields.value? name).join)

def default? (fields : Fields β) (name : String) (read? : β → m γ) (default : γ) : m γ := do
  match ← fields.value? name with
  | some value => read? value
  | none => return default

end

variable (fields : Fields Value)

/-- A parameter that may be missing or null. -/
def optional? {β : Type} (name : String) (read? : Value → Option β) : Option (Option β) := do
  match ← fields.value? name with
  | some value => if value.isNull then return none else some <$> read? value
  | none => return none

def vec3? (name : String) : Option (Vec3 Binary64) := fields.required? name Value.toVec3?

def points? (name : String) : Option (List (Vec3 Binary64)) := fields.required? name Value.toPoints?

def number? (name : String) : Option Binary64 := fields.required? name Value.toNumber?

def faces? : Option (List Face) := fields.required? "faces" Value.toFaces?

/-- A flag that is off by default. -/
def flag? (name : String) : Option Bool := fields.default? name Value.toFlag? false

def weight? : Option Binary64 := fields.default? "weight" Value.toNumber? 1

end Fields

/-- The names of the parameters of a type in their order, those with a default last. -/
structure Signature where
  needed : List String
  defaulted : List String
  deriving Repr

namespace Signature

def names (s : Signature) : List String := s.needed ++ s.defaulted

/-- What a key in an entry names: a parameter by its name or by its place, or none. -/
def name? (s : Signature) : Value → Option (Option String)
  | .scalar (.text name) => some (some name)
  | .scalar (.natural n) => some s.names[n]?
  | _ => none

end Signature

inductive Parameters where
  | named (fields : List (Value × Value))
  | listed (items : List Value)
  deriving Repr

structure Entry where
  type : Yaml.Scalar
  parameters : Parameters
  deriving Repr

namespace Parameters

/-- The parameters by their names. -/
def fields? (s : Signature) : Parameters → Option (Fields Value)
  | named fields => do
    let named ← fields.mapM fun (key, value) => return (← s.name? key).map (·, value)
    return named.filterMap id
  | listed items =>
    if s.needed.length ≤ items.length && items.length ≤ s.names.length then
      some (s.names.zip items)
    else none

end Parameters

namespace Entry

def isType : Value → Bool
  | .scalar (.text name) => name == "type"
  | _ => false

/-- An entry inside another one. -/
def ofValue? : Value → Option Entry
  | .mapping entries =>
    match entries.filter (isType ·.1) with
    | [(_, .scalar type)] => some ⟨type, .named (entries.filter (!isType ·.1))⟩
    | _ => none
  | .sequence (.scalar type :: items) => some ⟨type, .listed items⟩
  | _ => none

/-- The number of collections that may be nested in an entry of a list of a document. -/
def depth : Nat := 125

/-- An entry of a list of a document, where the text of its type is taken as it is. -/
def read (d : Document) (y : Yaml) : Reader Entry := do
  match ← d.follow y with
  | .mapping tag entries =>
    Document.untagged tag
    let fields ← entries.mapM fun (key, y) => do
      let key ← d.value depth key
      if isType key then return (key, .scalar (.text (← d.text y)))
      return (key, ← d.value depth y)
    Reader.of (ofValue? (.mapping fields))
  | .sequence tag (type :: items) =>
    Document.untagged tag
    return ⟨.text (← d.text type), .listed (← items.mapM (d.value depth))⟩
  | _ => failure

end Entry
end Relaxation
