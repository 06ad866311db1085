import Mathlib.Data.Real.Basic
import Relaxation.Goal.Collision
import Relaxation.Goal.FaceForce
import Relaxation.Goal.Polygon
import Relaxation.Proofs.Domain.Shape
import Relaxation.Proofs.Goal.Response

/-!
# Collisions and loads inside the domain

Spheres with one center, centers on a segment and segments without length are pushed apart in
directions of their own, edges without length and faces without area are passed over, and a gas
without volume exerts nothing. Polygons need corners to have a center
(`Domain.respondPolygons?_eq_some`).
-/

namespace Relaxation.Domain

noncomputable section

/-! ## The floor, spheres and segments -/

/-- Nodes below the floor are lifted onto it. -/
def respondFloor? (height : ℝ) (ps : List (Vec3 ℝ)) : Option (Response ℝ) :=
  ps.mapM fun p =>
    let depth := height - p.z
    averaged? (if 0 < depth then [⟨0, 0, depth⟩] else [])

theorem respondFloor?_eq_some (height : ℝ) (ps : List (Vec3 ℝ)) :
    respondFloor? height ps = some (Collision.floorResponse height ps) :=
  mapM_eq_some_map fun _ _ => averaged?_eq_some _

/-- The direction along a vector of the given length, or another one where it is almost zero. -/
def direction? (fallback : Option (Vec3 ℝ)) (delta : Vec3 ℝ) (dist : ℝ) : Option (Vec3 ℝ) :=
  if delta.almostZero 1e-12 then fallback else divVec? delta dist

theorem direction?_eq_some (fallback delta : Vec3 ℝ) :
    direction? (some fallback) delta delta.norm =
      some (if delta.almostZero 1e-12 then fallback else delta / delta.norm) := by
  unfold direction?
  split
  case isTrue => rfl
  case isFalse h =>
    exact divVec?_eq_some (Vec3.norm_pos (Vec3.ne_zero_of_not_almostZero (by norm_num) h)).ne' _

/-- Half of what moves the second of two spheres out of the first, if they overlap. -/
def pushSpheres? (diameter : ℝ) (p q : Vec3 ℝ) : Option (Option (Vec3 ℝ)) :=
  let delta := q - p
  let distSq := delta.normSq
  if diameter * diameter ≤ distSq then some none
  else do
    let dist ← sqrt? distSq
    let direction ← direction? (some Vec3.xAxis) delta dist
    return some (direction * (0.5 * (diameter - dist)))

/-- Spheres with a common center are parted along the first axis. -/
theorem pushSpheres?_eq_some (diameter : ℝ) (p q : Vec3 ℝ) :
    pushSpheres? diameter p q = some (Collision.pushApart diameter p q) := by
  unfold pushSpheres? Collision.pushApart
  dsimp only
  split
  case isTrue => rfl
  case isFalse =>
    have hdirection := direction?_eq_some Vec3.xAxis (q - p)
    unfold Vec3.norm at hdirection
    rw [sqrt?_eq_some (Vec3.normSq_nonneg _), Option.bind_eq_bind, Option.bind_some, hdirection]
    rfl

/-- The mean of the pushes between each sphere and the others. -/
def respondSpheres? (radius : ℝ) (ps : List (Vec3 ℝ)) : Option (Response ℝ) := do
  (← mutualCorrections? (pushSpheres? (2.0 * radius)) ps).mapM averaged?

theorem respondSpheres?_eq_some (radius : ℝ) (ps : List (Vec3 ℝ)) :
    respondSpheres? radius ps = some (Collision.spheresResponse radius ps) := by
  rw [respondSpheres?, mutualCorrections?_eq_some fun p _ q _ => pushSpheres?_eq_some _ p q,
    Option.bind_eq_bind, Option.bind_some, mapM_eq_some_map fun c _ => averaged?_eq_some c]
  rfl

/-- A direction across a segment, that of the third axis if the segment has no length. -/
def sideways? (a b : Vec3 ℝ) : Option (Vec3 ℝ) :=
  let along := b - a
  if along.almostZero 1e-12 then some Vec3.zAxis else normalize? along.perpendicular

/-- A vector across a segment of some length does not vanish. -/
theorem sideways?_eq_some (a b : Vec3 ℝ) : sideways? a b = some (Collision.sideways a b) := by
  unfold sideways? Collision.sideways
  dsimp only
  split
  case isTrue => rfl
  case isFalse h =>
    exact normalize?_eq_some
      (Vec3.perpendicular_ne_zero (Vec3.ne_zero_of_not_almostZero (by norm_num) h))

/-- What moves a point to the distance of the radius from a segment, if it is closer. -/
def offSegment? (radius : ℝ) (p a b : Vec3 ℝ) : Option (Option (Vec3 ℝ)) := do
  let delta := p - (← closestOnSegment? p a b)
  let dist ← norm? delta
  if radius ≤ dist then return none
  else
    let direction ← direction? (sideways? a b) delta dist
    return some (direction * (radius - dist))

theorem offSegment?_eq_some (radius : ℝ) (p a b : Vec3 ℝ) :
    offSegment? radius p a b = some (Collision.offSegment radius p a b) := by
  simp only [offSegment?, closestOnSegment?_eq_some, norm?_eq_some, sideways?_eq_some,
    direction?_eq_some, Option.bind_eq_bind, Option.bind_some, Collision.offSegment]
  split <;> rfl

/-- The mean of the pushes off the segments. -/
def respondSegments? (radius : ℝ) (segments : List (Vec3 ℝ × Vec3 ℝ)) (ps : List (Vec3 ℝ)) :
    Option (Response ℝ) :=
  ps.mapM fun p => do
    averaged? (← filterMap? (fun (a, b) => offSegment? radius p a b) segments)

theorem respondSegments?_eq_some (radius : ℝ) (segments : List (Vec3 ℝ × Vec3 ℝ))
    (ps : List (Vec3 ℝ)) :
    respondSegments? radius segments ps = some (Collision.segmentsResponse radius segments ps) := by
  refine mapM_eq_some_map fun p _ => ?_
  rw [filterMap?_eq_some fun x _ => offSegment?_eq_some radius p x.1 x.2, Option.bind_eq_bind,
    Option.bind_some]
  exact averaged?_eq_some _

/-! ## Polygons -/

/-- The unit vector across an edge, which needs a length. -/
def edgeNormal? (e : Vec2 ℝ) : Option (Vec2 ℝ) := do divPlan? ⟨e.y, -e.x⟩ (← planNorm? e)

theorem edgeNormal?_eq_some {e : Vec2 ℝ} (h : e.norm ≠ 0) :
    edgeNormal? e = some (Polygon.edgeNormal e) := by
  rw [edgeNormal?, planNorm?_eq_some, Option.bind_eq_bind, Option.bind_some, divPlan?_eq_some h]
  rfl

/-- The unit vectors across the edges that have a length. -/
def edgeNormals? (poly : List (Vec2 ℝ)) : Option (List (Vec2 ℝ)) :=
  filterMap?
    (fun (_, e) => do if 1e-12 < (← planNorm? e) then (edgeNormal? e).map some else return none)
    (Polygon.edges poly)

theorem edgeNormals?_eq_some (poly : List (Vec2 ℝ)) :
    edgeNormals? poly = some (Polygon.edgeNormals poly) := by
  refine filterMap?_eq_some fun (a, e) _ => ?_
  simp only [planNorm?_eq_some, Option.bind_eq_bind, Option.bind_some]
  split
  case isTrue h =>
    have hlong : e.norm ≠ 0 := (lt_trans (by norm_num) h).ne'
    rw [edgeNormal?_eq_some hlong, Option.map_some]
  case isFalse => rfl

/-- The translation by the least overlap along a normal of an edge, in the sense that leads from
center to center, if the polygons overlap along all of them. -/
def separatingTranslation? (a b : List (Vec2 ℝ)) : Option (Option (Vec2 ℝ)) := do
  match Polygon.leastOverlap a b ((← edgeNormals? a) ++ (← edgeNormals? b)) with
  | none => return none
  | some (depth, axis) =>
    let toB := (← planCentroid? b) - (← planCentroid? a)
    let axis := if toB.dot axis < 0 then -axis else axis
    return some (axis * depth)

theorem separatingTranslation?_eq_some {a b : List (Vec2 ℝ)} (ha : a ≠ []) (hb : b ≠ []) :
    separatingTranslation? a b = some (Polygon.separatingTranslation a b) := by
  simp only [separatingTranslation?, edgeNormals?_eq_some, planCentroid?_eq_some ha,
    planCentroid?_eq_some hb, Option.bind_eq_bind, Option.bind_some, Polygon.separatingTranslation]
  cases Polygon.leastOverlap a b (Polygon.edgeNormals a ++ Polygon.edgeNormals b) with
  | none => rfl
  | some least => rfl

/-- One half of the translation, for either polygon goes half the way. -/
def pushPolygons? (a b : List (Vec2 ℝ)) : Option (Option (Vec3 ℝ)) := do
  return (← separatingTranslation? a b).map fun t => ⟨0.5 * t.x, 0.5 * t.y, 0⟩

/-- Every corner of a polygon moves by the mean of the pushes on the polygon. -/
def separate? (polygons : List (List (Vec2 ℝ))) : Option (Response ℝ) := do
  let corrections ← mutualCorrections? pushPolygons? polygons
  let moves ← (polygons.zip corrections).mapM fun (poly, corrections) =>
    poly.mapM fun _ => averaged? corrections
  return moves.flatten

/-- Pushes lead from center to center, so polygons without corners are left out. -/
theorem separate?_eq_some {polygons : List (List (Vec2 ℝ))} (h : ∀ poly ∈ polygons, poly ≠ []) :
    separate? polygons = some (Polygon.separate polygons) := by
  have hpush : ∀ a ∈ polygons, ∀ b ∈ polygons,
      pushPolygons? a b = some (Polygon.pushApart a b) := by
    intro a ha b hb
    rw [pushPolygons?, separatingTranslation?_eq_some (h a ha) (h b hb)]
    rfl
  rw [separate?, mutualCorrections?_eq_some hpush, Option.bind_eq_bind, Option.bind_some,
    mapM_eq_some_map fun x _ => mapM_eq_some_map fun _ _ => averaged?_eq_some x.2,
    Option.bind_eq_bind, Option.bind_some, Polygon.separate, List.flatMap_def]
  rfl

/-- The polygons are cut out of the list of nodes by their numbers of corners. -/
def respondPolygons? (sizes : List Nat) (ps : List (Vec3 ℝ)) : Option (Response ℝ) :=
  separate? (Polygon.cut sizes (ps.map Vec2.ofVec3))

/-- Cut out by sizes other than zero, every polygon has corners. -/
theorem respondPolygons?_eq_some {sizes : List Nat} {ps : List (Vec3 ℝ)}
    (hsizes : ∀ size ∈ sizes, size ≠ 0) (hsum : sizes.sum = ps.length) :
    respondPolygons? sizes ps = some (Polygon.collisionResponse sizes ps) := by
  refine separate?_eq_some fun poly hpoly hnil => ?_
  have hlengths : (Polygon.cut sizes (ps.map Vec2.ofVec3)).map List.length = sizes :=
    map_length_cut (by simp [hsum])
  have hmem := List.mem_map_of_mem (f := List.length) hpoly
  rw [hlengths, hnil] at hmem
  exact hsizes 0 hmem rfl

/-- How far a point is out beyond an edge, with the normal, if the edge has a length. -/
def violation? (p a e : Vec2 ℝ) : Option (Option (ℝ × Vec2 ℝ)) := do
  if (← planNorm? e) < 1e-12 then return none
  else
    let normal ← edgeNormal? e
    return some ((p - a).dot normal, normal)

theorem violation?_eq_some (p a e : Vec2 ℝ) :
    violation? p a e = some (Polygon.violation p a e) := by
  simp only [violation?, planNorm?_eq_some, Option.bind_eq_bind, Option.bind_some,
    Polygon.violation]
  split
  case isTrue => rfl
  case isFalse h =>
    have hlong : e.norm ≠ 0 := (lt_of_lt_of_le (by norm_num) (not_lt.mp h)).ne'
    rw [edgeNormal?_eq_some hlong]
    rfl

/-- The edge that a point is furthest out beyond, if it is out at all. -/
def worstViolation? (boundary : List (Vec2 ℝ)) (p : Vec2 ℝ) : Option (Option (ℝ × Vec2 ℝ)) := do
  let violations ← filterMap? (fun (a, e) => violation? p a e) (Polygon.edges boundary)
  return (Scalar.lastMaxBy Prod.fst violations).filter fun (depth, _) => 0 < depth

theorem worstViolation?_eq_some (boundary : List (Vec2 ℝ)) (p : Vec2 ℝ) :
    worstViolation? boundary p = some (Polygon.worstViolation boundary p) := by
  rw [worstViolation?, filterMap?_eq_some fun x _ => violation?_eq_some p x.1 x.2]
  rfl

/-- Nodes that are out move in by the worst violation. -/
def respondContainment? (boundary : List (Vec2 ℝ)) (ps : List (Vec3 ℝ)) : Option (Response ℝ) :=
  ps.mapM fun p => do
    let worst := (← worstViolation? boundary (Vec2.ofVec3 p)).toList
    averaged? (worst.map fun (depth, normal) => Polygon.inward depth normal)

theorem respondContainment?_eq_some (boundary : List (Vec2 ℝ)) (ps : List (Vec3 ℝ)) :
    respondContainment? boundary ps = some (Polygon.containmentResponse boundary ps) := by
  refine mapM_eq_some_map fun p _ => ?_
  rw [worstViolation?_eq_some, Option.bind_eq_bind, Option.bind_some]
  exact averaged?_eq_some _

/-! ## Loads -/

/-- The loads of the faces, spread over their corners. -/
def respondLoads? (n : Nat) (force : Vec3 ℝ → Option (Vec3 ℝ)) (faces : List Face)
    (ps : List (Vec3 ℝ)) : Option (Response ℝ) := do
  let loads ← faces.mapM fun f => do return (f, ← force (FaceForce.faceNormal ps f))
  return FaceForce.spread n loads

/-- Faces that are out of range have a normal all the same, so only the force may fail. -/
theorem respondLoads?_eq_some {force : Vec3 ℝ → Option (Vec3 ℝ)} {force' : Vec3 ℝ → Vec3 ℝ}
    (h : ∀ normal, force normal = some (force' normal)) (n : Nat) (faces : List Face)
    (ps : List (Vec3 ℝ)) :
    respondLoads? n force faces ps = some (FaceForce.respond n force' faces ps) := by
  have hload : ∀ f ∈ faces, (do return (f, ← force (FaceForce.faceNormal ps f))) =
      some (f, force' (FaceForce.faceNormal ps f)) := fun f _ => by rw [h]; rfl
  rw [respondLoads?, mapM_eq_some_map hload]
  rfl

/-- The volume that the faces enclose. -/
def volume? (faces : List Face) (ps : List (Vec3 ℝ)) : Option ℝ :=
  let corner := vertexAt ps
  div? (Scalar.sum (faces.map fun f => (corner f.a).dot ((corner f.b).cross (corner f.c)))) 6.0

theorem volume?_eq_some (faces : List Face) (ps : List (Vec3 ℝ)) :
    volume? faces ps = some (FaceForce.volume faces ps) :=
  div?_eq_some (by norm_num) _

/-- The response to a gas, with its amount over the volume for the pressure. -/
def respondGas? (n : Nat) (amount : ℝ) (faces : List Face) (ps : List (Vec3 ℝ)) :
    Option (Response ℝ) := do
  let volume ← volume? faces ps
  if Scalar.abs volume < 1e-12 then return Response.idle n
  else
    let pressure ← div? amount volume
    respondLoads? n (fun normal => some (normal * pressure)) faces ps

/-- The gas exerts nothing where its volume could pass for zero. -/
theorem respondGas?_eq_some (n : Nat) (amount : ℝ) (faces : List Face) (ps : List (Vec3 ℝ)) :
    respondGas? n amount faces ps = some (FaceForce.gasResponse n amount faces ps) := by
  simp only [respondGas?, volume?_eq_some, Option.bind_eq_bind, Option.bind_some,
    FaceForce.gasResponse]
  split
  case isTrue => rfl
  case isFalse h =>
    have hvolume : FaceForce.volume faces ps ≠ 0 := by
      intro hzero
      rw [hzero] at h
      norm_num at h
    rw [div?_eq_some hvolume, Option.bind_some]
    exact respondLoads?_eq_some (fun _ => rfl) n faces ps

/-- The load of a wind on a face with an area, along the normal of the face. -/
def windLoad? (wind normal : Vec3 ℝ) : Option (Vec3 ℝ) := do
  let area ← norm? normal
  if area < 1e-12 then return 0 else return normal * (← div? (normal.dot wind) area)

theorem windLoad?_eq_some (wind normal : Vec3 ℝ) :
    windLoad? wind normal = some (FaceForce.windLoad wind normal) := by
  simp only [windLoad?, norm?_eq_some, Option.bind_eq_bind, Option.bind_some, FaceForce.windLoad]
  split
  case isTrue => rfl
  case isFalse h =>
    rw [div?_eq_some (Vec3.norm_ne_zero_of_not_lt (by norm_num) h)]
    rfl

end

end Relaxation.Domain
