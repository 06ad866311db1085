import Relaxation.Goal.Make

/-!
# Changing goals

An amendment names a kind of goal and new values for its parameters, of which any may be left
out. `Goal.change` applies an amendment and a new weight together: either all is accepted, or
the goal stays as it is.
-/

namespace Relaxation

inductive Amendment (α : Type) where
  | anchor (target : Option (Vec3 α))
  | force (push : Option (Vec3 α))
  | length (rest : Option α)
  | clampLength (min max : Option α)
  | direction (along : Option (Vec3 α))
  | angle (size : Option α)
  | onLine (line : Option (Line α))
  | onPlane (plane : Option (Plane α))
  | onCurve (curve : Option (Shape α))
  | onSurface (surface : Option (Shape α))
  | floor (height : Option α)
  | sphereCollision (radius : Option α)
  | sphereStaticLineCollision (radius : Option α)
  | constantPressure (pressure : Option α)
  | constantVolumePressure (amount : Option α)
  | directionalWind (wind : Option (Vec3 α))
  | shapeMatching (allowScaling : Option Bool)
  /-- For the kinds that have no parameter to change. -/
  | plain (kind : GoalKind)
  deriving Repr

namespace Amendment

variable {α : Type}

/-- The kind of goal that the amendment is for. -/
def kind : Amendment α → GoalKind
  | anchor _ => .anchor
  | force _ => .force
  | length _ => .length
  | clampLength .. => .clampLength
  | direction _ => .direction
  | angle _ => .angle
  | onLine _ => .onLine
  | onPlane _ => .onPlane
  | onCurve _ => .onCurve
  | onSurface _ => .onSurface
  | floor _ => .floor
  | sphereCollision _ => .sphereCollision
  | sphereStaticLineCollision _ => .sphereStaticLineCollision
  | constantPressure _ => .constantPressure
  | constantVolumePressure _ => .constantVolumePressure
  | directionalWind _ => .directionalWind
  | shapeMatching _ => .shapeMatching
  | plain kind => kind

end Amendment

variable {α : Type} [Scalar α]

namespace Aim

/-- The aim with the new values in place, if they are acceptable. An amendment for another kind
of goal changes nothing. -/
def amend (aim : Aim α) (a : Amendment α) : Checked α (Aim α) :=
  match aim, a with
  | anchor old, .anchor target => do
    target.forM (requireFinitePoint (.goal .anchor) "target")
    return anchor (target.getD old)
  | force old, .force push => do
    push.forM (requireFinitePoint (.goal .force) "force")
    return force (push.getD old)
  | length old, .length rest => do
    rest.forM (requireNonNegative (.goal .length) "length")
    return length (rest.getD old)
  | clampLength oldMin oldMax, .clampLength min max => do
    Goal.checkRange (min.getD oldMin) (max.getD oldMax)
    return clampLength (min.getD oldMin) (max.getD oldMax)
  | direction old, .direction along => do
    return direction ((← along.mapM Goal.checkedDirection).getD old)
  | angle old, .angle size => do
    size.forM Goal.checkAngle
    return angle (size.getD old)
  | onLine old, .onLine line => .ok (onLine (line.getD old))
  | onPlane old, .onPlane plane => .ok (onPlane (plane.getD old))
  | onCurve old, .onCurve curve => .ok (onCurve (curve.getD old))
  | onSurface old, .onSurface surface => .ok (onSurface (surface.getD old))
  | floor old, .floor height => do
    height.forM (requireFinite (.goal .floor) "height")
    return floor (height.getD old)
  | sphereCollision old, .sphereCollision radius => do
    radius.forM (requireNonNegative (.goal .sphereCollision) "radius")
    return sphereCollision (radius.getD old)
  | sphereStaticLineCollision segments old, .sphereStaticLineCollision radius => do
    radius.forM (requireNonNegative (.goal .sphereStaticLineCollision) "radius")
    return sphereStaticLineCollision segments (radius.getD old)
  | constantPressure faces old, .constantPressure pressure => do
    pressure.forM (requireFinite (.goal .constantPressure) "pressure")
    return constantPressure faces (pressure.getD old)
  | constantVolumePressure faces old, .constantVolumePressure amount => do
    amount.forM (requireFinite (.goal .constantVolumePressure) "volume_constant")
    return constantVolumePressure faces (amount.getD old)
  | directionalWind faces old, .directionalWind wind => do
    wind.forM (requireFinitePoint (.goal .directionalWind) "wind")
    return directionalWind faces (wind.getD old)
  | shapeMatching shape old, .shapeMatching allowScaling =>
    .ok (shapeMatching shape (allowScaling.getD old))
  | aim, _ => .ok aim

end Aim

namespace Goal

/-- The goal with the parameters amended and the weight replaced, if all new values are
acceptable. Parameters are checked before the weight. -/
def change (g : Goal α) (a : Amendment α) (weight : Option α) : Checked α (Goal α) := do
  let aim ← g.aim.amend a
  weight.forM (requireWeight (.goal g.kind))
  return { g with aim, weight := weight.getD g.weight }

end Goal
end Relaxation
