import Relaxation.Description.Basic
import Relaxation.Description.Entry

/-!
# Reading descriptions

The sections `goals` and `binders` of a scenario are lists of entries. A parameter that is missing
takes its default if it has one, and an empty value counts as missing only where a parameter is
optional. Anything else that does not fit makes the whole description unreadable.

The sections `solver` and `execution` are read with the types of their fields known in advance,
while the parameters of entries have to mean the right thing by themselves. An empty section is
one without fields or entries, and fields that are not known are ignored.
-/

namespace Relaxation

open Yaml (Value Document Reader)

namespace SurfaceDescription

/-- Reads a surface, whose type is told by its name or by its place among the types. -/
def ofValue? (v : Value) : Option (SurfaceDescription Binary64) := do
  let entry ← Entry.ofValue? v
  match entry.type with
  | .text "plane" | .natural 0 =>
    let fields ← entry.parameters.fields? ⟨["origin", "normal"], []⟩
    return .plane (← fields.vec3? "origin") (← fields.vec3? "normal")
  | .text "sphere" | .natural 1 =>
    let fields ← entry.parameters.fields? ⟨["center", "radius"], []⟩
    return .sphere (← fields.vec3? "center") (← fields.number? "radius")
  | .text "mesh" | .natural 2 =>
    let fields ← entry.parameters.fields? ⟨["vertices", "faces"], []⟩
    return .mesh (← fields.points? "vertices") (← fields.faces?)
  | _ => none

end SurfaceDescription

/-- The parameters of a kind of goal. Every goal has a weight, which comes last. -/
def GoalKind.signature : GoalKind → Signature
  | anchor => ⟨["position", "target"], ["weight"]⟩
  | force => ⟨["points", "force"], ["weight"]⟩
  | length => ⟨["start", "end", "length"], ["weight"]⟩
  | clampLength => ⟨["start", "end", "min", "max"], ["weight"]⟩
  | equalLengths | parallelLines => ⟨["endpoints"], ["weight"]⟩
  | direction => ⟨["start", "end", "direction"], ["weight"]⟩
  | angle => ⟨["a", "vertex", "c", "angle"], ["weight"]⟩
  | colinear | coplanar | cocircular | cospherical | coincident => ⟨["points"], ["weight"]⟩
  | onLine => ⟨["points", "origin", "direction"], ["weight"]⟩
  | onPlane => ⟨["points", "origin", "normal"], ["weight"]⟩
  | onCurve => ⟨["points", "curve"], ["closed", "weight"]⟩
  | onSurface => ⟨["points", "surface"], ["weight"]⟩
  | floor => ⟨["points"], ["height", "weight"]⟩
  | sphereCollision => ⟨["centers", "radius"], ["weight"]⟩
  | sphereStaticLineCollision => ⟨["centers", "segments", "radius"], ["weight"]⟩
  | convexPolygonCollision => ⟨["polygons"], ["weight"]⟩
  | convexPolygonContainment => ⟨["points", "boundary"], ["weight"]⟩
  | constantPressure => ⟨["vertices", "faces", "pressure"], ["weight"]⟩
  | constantVolumePressure => ⟨["vertices", "faces", "volume_constant"], ["weight"]⟩
  | directionalWind => ⟨["vertices", "faces", "wind"], ["weight"]⟩
  | shapeMatching => ⟨["points", "target_shape"], ["allow_scaling", "weight"]⟩

namespace GoalDescription

/-- Reads the parameters of a goal of a given kind. -/
def ofFields? (fields : Fields Value) : GoalKind → Option (GoalDescription Binary64)
  | .anchor =>
    return anchor (← fields.vec3? "position") (← fields.optional? "target" Value.toVec3?)
      (← fields.weight?)
  | .force => return force (← fields.points? "points") (← fields.vec3? "force") (← fields.weight?)
  | .length =>
    return length (← fields.vec3? "start") (← fields.vec3? "end")
      (← fields.optional? "length" Value.toNumber?) (← fields.weight?)
  | .clampLength =>
    return clampLength (← fields.vec3? "start") (← fields.vec3? "end") (← fields.number? "min")
      (← fields.number? "max") (← fields.weight?)
  | .equalLengths => return equalLengths (← fields.points? "endpoints") (← fields.weight?)
  | .parallelLines => return parallelLines (← fields.points? "endpoints") (← fields.weight?)
  | .direction =>
    return direction (← fields.vec3? "start") (← fields.vec3? "end")
      (← fields.vec3? "direction") (← fields.weight?)
  | .angle =>
    return angle (← fields.vec3? "a") (← fields.vec3? "vertex") (← fields.vec3? "c")
      (← fields.optional? "angle" Value.toNumber?) (← fields.weight?)
  | .colinear => return colinear (← fields.points? "points") (← fields.weight?)
  | .coplanar => return coplanar (← fields.points? "points") (← fields.weight?)
  | .cocircular => return cocircular (← fields.points? "points") (← fields.weight?)
  | .cospherical => return cospherical (← fields.points? "points") (← fields.weight?)
  | .coincident => return coincident (← fields.points? "points") (← fields.weight?)
  | .onLine =>
    return onLine (← fields.points? "points") (← fields.vec3? "origin")
      (← fields.vec3? "direction") (← fields.weight?)
  | .onPlane =>
    return onPlane (← fields.points? "points") (← fields.vec3? "origin")
      (← fields.vec3? "normal") (← fields.weight?)
  | .onCurve =>
    return onCurve (← fields.points? "points") (← fields.points? "curve")
      (← fields.flag? "closed") (← fields.weight?)
  | .onSurface =>
    return onSurface (← fields.points? "points")
      (← fields.required? "surface" SurfaceDescription.ofValue?) (← fields.weight?)
  | .floor =>
    return floor (← fields.points? "points") (← fields.default? "height" Value.toNumber? 0)
      (← fields.weight?)
  | .sphereCollision =>
    return sphereCollision (← fields.points? "centers") (← fields.number? "radius")
      (← fields.weight?)
  | .sphereStaticLineCollision =>
    return sphereStaticLineCollision (← fields.points? "centers")
      (← fields.required? "segments" (Value.toList? Value.toSegment?)) (← fields.number? "radius")
      (← fields.weight?)
  | .convexPolygonCollision =>
    return convexPolygonCollision (← fields.required? "polygons" (Value.toList? Value.toPoints?))
      (← fields.weight?)
  | .convexPolygonContainment =>
    return convexPolygonContainment (← fields.points? "points") (← fields.points? "boundary")
      (← fields.weight?)
  | .constantPressure =>
    return constantPressure (← fields.points? "vertices") (← fields.faces?)
      (← fields.number? "pressure") (← fields.weight?)
  | .constantVolumePressure =>
    return constantVolumePressure (← fields.points? "vertices") (← fields.faces?)
      (← fields.number? "volume_constant") (← fields.weight?)
  | .directionalWind =>
    return directionalWind (← fields.points? "vertices") (← fields.faces?)
      (← fields.vec3? "wind") (← fields.weight?)
  | .shapeMatching =>
    return shapeMatching (← fields.points? "points") (← fields.points? "target_shape")
      (← fields.flag? "allow_scaling") (← fields.weight?)

def ofParts? (entry : Entry) : Option (GoalDescription Binary64) := do
  match entry.type with
  | .text tag =>
    let kind ← GoalKind.ofTag? tag
    ofFields? (← entry.parameters.fields? kind.signature) kind
  | _ => none

def read (d : Document) (y : Yaml) : Reader (GoalDescription Binary64) := do
  Reader.of (ofParts? (← Entry.read d y))

/-- Reads a document that is one goal. -/
def ofDocument? : Document → Option (GoalDescription Binary64) := Document.readWith read

end GoalDescription

namespace BinderDescription

def ofParts? (entry : Entry) : Option (BinderDescription Binary64) := do
  match entry.type with
  | .text "points" =>
    let fields ← entry.parameters.fields? ⟨["points"], []⟩
    return .points (← fields.points? "points")
  | .text "polyline" =>
    let fields ← entry.parameters.fields? ⟨["points"], ["closed"]⟩
    return .polyline (← fields.points? "points") (← fields.flag? "closed")
  | .text "mesh" =>
    let fields ← entry.parameters.fields? ⟨["vertices", "faces"], []⟩
    return .mesh (← fields.points? "vertices") (← fields.faces?)
  | _ => none

def read (d : Document) (y : Yaml) : Reader (BinderDescription Binary64) := do
  Reader.of (ofParts? (← Entry.read d y))

/-- Reads a document that is one binder. -/
def ofDocument? : Document → Option (BinderDescription Binary64) := Document.readWith read

end BinderDescription

namespace Yaml.Document

/-- The fields of a section that have one of the names in `known`. -/
def fields (d : Document) (known : List String) (y : Yaml) : Reader (Fields Yaml) := do
  match ← d.follow y with
  | .mapping _ entries =>
    let fields ← entries.mapM fun (key, y) => return (← d.text key, y)
    return fields.filter (known.contains ·.1)
  | .scalar _ .plain "" => return []
  | _ => failure

/-- The entries of a list section. -/
def list {β : Type} (item : Document → Yaml → Reader β) (d : Document) (y : Yaml) :
    Reader (List β) := do
  match ← d.follow y with
  | .sequence _ items => items.mapM (item d)
  | .scalar _ .plain "" => return []
  | _ => failure

def number (d : Document) (y : Yaml) : Reader Binary64 := do
  Binary64.ofFloat <$> Reader.of (typed? .float float? (← d.follow y))

def natural (d : Document) (y : Yaml) : Reader Nat := do
  Reader.of (typed? .integer natural? (← d.follow y))

def flag (d : Document) (y : Yaml) : Reader Bool := do
  Reader.of (typed? .flag flag? (← d.follow y))

end Yaml.Document

def Params.read (d : Document) (y : Yaml) : Reader (Params Binary64) := do
  let fields ← d.fields ["node_merge_threshold", "iteration_count", "damping_factor",
    "enable_momentum", "enable_mouse_interaction"] y
  let base : Params Binary64 := Params.default
  return {
    mergeThreshold := ← fields.default? "node_merge_threshold" d.number base.mergeThreshold
    iterationCount := ← fields.default? "iteration_count" d.natural base.iterationCount
    damping := ← fields.default? "damping_factor" d.number base.damping
    momentum := ← fields.default? "enable_momentum" d.flag base.momentum
    pointerPull := ← fields.default? "enable_mouse_interaction" d.flag base.pointerPull }

def ExecutionBounds.read (d : Document) (y : Yaml) : Reader (ExecutionBounds Binary64) := do
  let fields ← d.fields ["max_iterations", "kinetic_energy_threshold"] y
  let base : ExecutionBounds Binary64 := ExecutionBounds.default
  return {
    maxIterations := ← fields.default? "max_iterations" d.natural base.maxIterations
    energyThreshold := ← fields.default? "kinetic_energy_threshold" d.number base.energyThreshold }

namespace ScenarioDescription

def read (d : Document) (y : Yaml) : Reader (ScenarioDescription Binary64) := do
  let fields ← d.fields ["solver", "execution", "goals", "binders"] y
  return {
    solver := ← fields.default? "solver" (Params.read d) Params.default
    execution := ← fields.default? "execution" (ExecutionBounds.read d) ExecutionBounds.default
    goals := ← fields.required? "goals" (Document.list GoalDescription.read d)
    binders := ← fields.default? "binders" (Document.list BinderDescription.read d) [] }

/-- Reads a document that is one scenario. -/
def ofDocument? : Document → Option (ScenarioDescription Binary64) := Document.readWith read

end ScenarioDescription
end Relaxation
