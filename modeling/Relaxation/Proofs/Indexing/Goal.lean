import Relaxation.Proofs.Goal.Response
import Relaxation.Proofs.Lists

/-!
# Goals stay within their lists

The response and the readings of an aim once more, with every node, corner, pair, vertex range and
target looked up by its place in a way that may fail. For an aim that fits its nodes nothing fails
(`Aim.respond?_eq_some`, `Aim.readings?_eq_some`).
-/

namespace Relaxation

variable {α : Type} [Scalar α]

/-! ## Faces -/

/-- The corners of a face among the vertices. -/
def corners? (vertices : List (Vec3 α)) (f : Face) : Option (Vec3 α × Vec3 α × Vec3 α) := do
  return (← vertices[f.a]?, ← vertices[f.b]?, ← vertices[f.c]?)

/-- A face within the list has its three corners there. -/
theorem corners?_eq_some {vertices : List (Vec3 α)} {f : Face} (h : f.Within vertices.length) :
    corners? vertices f =
      some (vertexAt vertices f.a, vertexAt vertices f.b, vertexAt vertices f.c) := by
  obtain ⟨ha, hb, hc⟩ : f.a < vertices.length ∧ f.b < vertices.length ∧ f.c < vertices.length := by
    simpa [Face.Within, Face.corners] using h
  simp [corners?, vertexAt, ha, hb, hc]

/-- The nearest of the points that the faces offer, with every corner looked up. -/
def TriangleMesh.closestPoint? (m : TriangleMesh α) (p : Vec3 α) : Option (Vec3 α) := do
  let candidates ← m.faces.mapM fun f => do
    let (a, b, c) ← corners? m.vertices f
    return closestOnTriangle p a b c
  return nearestTo p candidates

/-- The projection to a shape; only a mesh looks anything up. -/
def Shape.closestPoint? (shape : Shape α) (p : Vec3 α) : Option (Vec3 α) :=
  match shape with
  | mesh m => m.closestPoint? p
  | line _ | plane _ | sphere _ | polyline _ => some (shape.closestPoint p)

theorem Shape.closestPoint?_eq_some {shape : Shape α} (h : shape.Bounded) (p : Vec3 α) :
    shape.closestPoint? p = some (shape.closestPoint p) := by
  cases shape with
  | mesh m =>
    have hface : ∀ f ∈ m.faces,
        (do let (a, b, c) ← corners? m.vertices f; return closestOnTriangle p a b c) =
          some (closestOnTriangle p (vertexAt m.vertices f.a) (vertexAt m.vertices f.b)
            (vertexAt m.vertices f.c)) :=
      fun f hf => by rw [corners?_eq_some (h f hf)]; rfl
    rw [closestPoint?, TriangleMesh.closestPoint?, mapM_eq_some_map hface]
    rfl
  | line _ | plane _ | sphere _ | polyline _ => rfl

namespace FaceForce

/-- The response of `n` vertices, which have a slot for every corner that takes a load. -/
def respond? (n : Nat) (force : Vec3 α → Vec3 α) (faces : List Face) (ps : List (Vec3 α)) :
    Option (Response α) := do
  let loads ← faces.mapM fun f => do
    let (a, b, c) ← corners? ps f
    return (f, force (areaNormal a b c))
  if faces.all (·.corners.all (· < n)) then some (spread n loads) else none

theorem respond?_eq_some {n : Nat} {faces : List Face} {ps : List (Vec3 α)}
    (hfaces : ∀ f ∈ faces, f.Within n) (h : ps.length = n) (force : Vec3 α → Vec3 α) :
    respond? n force faces ps = some (respond n force faces ps) := by
  have hface : ∀ f ∈ faces,
      (do let (a, b, c) ← corners? ps f; return (f, force (areaNormal a b c))) =
        some (f, force (faceNormal ps f)) :=
    fun f hf => by rw [corners?_eq_some (h ▸ hfaces f hf)]; rfl
  have hslots : faces.all (·.corners.all (· < n)) = true := by
    simpa [Face.Within] using hfaces
  rw [respond?, mapM_eq_some_map hface, Option.bind_eq_bind, Option.bind_some, if_pos hslots,
    respond]

/-- The enclosed volume, with every corner looked up. -/
def volume? (faces : List Face) (ps : List (Vec3 α)) : Option α := do
  let dets ← faces.mapM fun f => do
    let (a, b, c) ← corners? ps f
    return a.dot (b.cross c)
  return Scalar.sum dets / 6.0

theorem volume?_eq_some {faces : List Face} {ps : List (Vec3 α)}
    (h : ∀ f ∈ faces, f.Within ps.length) : volume? faces ps = some (volume faces ps) := by
  have hface : ∀ f ∈ faces,
      (do let (a, b, c) ← corners? ps f; return a.dot (b.cross c)) =
        some ((vertexAt ps f.a).dot ((vertexAt ps f.b).cross (vertexAt ps f.c))) :=
    fun f hf => by rw [corners?_eq_some (h f hf)]; rfl
  rw [volume?, mapM_eq_some_map hface]
  rfl

/-- The response to a pressure that falls with the volume. -/
def gasResponse? (n : Nat) (amount : α) (faces : List Face) (ps : List (Vec3 α)) :
    Option (Response α) := do
  let volume ← volume? faces ps
  if Scalar.abs volume < 1e-12 then return Response.idle n
  else respond? n (· * (amount / volume)) faces ps

theorem gasResponse?_eq_some {n : Nat} {amount : α} {faces : List Face} {ps : List (Vec3 α)}
    (hfaces : ∀ f ∈ faces, f.Within n) (h : ps.length = n) :
    gasResponse? n amount faces ps = some (gasResponse n amount faces ps) := by
  rw [gasResponse?, volume?_eq_some (h ▸ hfaces), Option.bind_eq_bind, Option.bind_some,
    respond?_eq_some hfaces h, gasResponse]
  split
  · rfl
  · rfl

end FaceForce

/-! ## Meetings -/

/-- Every item meets those at the places before and after its own. -/
def mutualCorrections? {β : Type} (push : β → β → Option (Vec3 α)) (items : List β) :
    Option (List (List (Vec3 α))) :=
  (List.range items.length).mapM fun i => do
    let x ← items[i]?
    let earlier ← slice? items 0 i
    let later ← slice? items (i + 1) (items.length - (i + 1))
    return earlier.filterMap (push · x) ++ later.filterMap fun y => (push x y).map (-·)

/-- The places before and after an item are places of the list. -/
theorem mutualCorrections?_eq_some {β : Type} (push : β → β → Option (Vec3 α))
    (items : List β) : mutualCorrections? push items = some (mutualCorrections push items) := by
  refine mapM_range_eq_some (length_mutualCorrections push items) fun i hi => ?_
  rw [List.getElem?_eq_getElem hi, slice?_zero (by omega), slice?_rest (by omega)]
  simp [mutualCorrections, hi]

namespace Collision

/-- The response of spheres that part in pairs. -/
def spheresResponse? (radius : α) (ps : List (Vec3 α)) : Option (Response α) :=
  (mutualCorrections? (pushApart (2.0 * radius)) ps).map (·.map Response.averaged)

theorem spheresResponse?_eq_some (radius : α) (ps : List (Vec3 α)) :
    spheresResponse? radius ps = some (spheresResponse radius ps) := by
  rw [spheresResponse?, mutualCorrections?_eq_some]
  rfl

/-- Every sphere is compared with those at later places. -/
def overlapCount? (radius : α) (ps : List (Vec3 α)) : Option Nat := do
  let diameterSq := 4.0 * radius * radius
  let close ← (List.range ps.length).mapM fun i => do
    let p ← ps[i]?
    let later ← slice? ps (i + 1) (ps.length - (i + 1))
    return later.filter (p.distSq · < diameterSq)
  return close.flatten.length

theorem overlapCount?_eq_some (radius : α) (ps : List (Vec3 α)) :
    overlapCount? radius ps = some (overlapCount radius ps) := by
  have hclose : (List.range ps.length).mapM (fun i => do
        let p ← ps[i]?
        let later ← slice? ps (i + 1) (ps.length - (i + 1))
        return later.filter (p.distSq · < 4.0 * radius * radius)) =
      some (ps.zipIdx.map fun x =>
        (ps.drop (x.2 + 1)).filter (x.1.distSq · < 4.0 * radius * radius)) := by
    refine mapM_range_eq_some (by simp) fun i hi => ?_
    rw [List.getElem?_eq_getElem hi, slice?_rest (by omega)]
    simp [hi]
  rw [overlapCount?, hclose, overlapCount, List.flatMap_def]
  rfl

end Collision

namespace Polygon

/-- Cuts a list into the parts of given lengths that follow a start. -/
def cut? {β : Type} (start : Nat) : List Nat → List β → Option (List (List β))
  | [], _ => some []
  | n :: ns, bs => do return (← slice? bs start n) :: (← cut? (start + n) ns bs)

omit [Scalar α] in
/-- Polygons that together are no longer than the list can be cut out of it. -/
theorem cut?_eq_some {β : Type} {start : Nat} {sizes : List Nat} {bs : List β}
    (h : start + sizes.sum ≤ bs.length) :
    cut? start sizes bs = some (cut sizes (bs.drop start)) := by
  induction sizes generalizing start with
  | nil => rfl
  | cons n sizes ih =>
    rw [List.sum_cons] at h
    rw [cut?, slice?_eq_some (by omega), ih (by omega), cut, List.drop_drop]
    rfl

/-- Each node of a polygon takes the mean of the polygon's corrections. -/
def separate? (polygons : List (List (Vec2 α))) : Option (Response α) := do
  let corrections ← mutualCorrections? pushApart polygons
  return (polygons.zip corrections).flatMap fun (poly, corrections) =>
    poly.map fun _ => Response.averaged corrections

/-- The response of polygons, each cut out of the one list of nodes. -/
def collisionResponse? (sizes : List Nat) (ps : List (Vec3 α)) : Option (Response α) := do
  separate? (← cut? 0 sizes (ps.map Vec2.ofVec3))

theorem collisionResponse?_eq_some {sizes : List Nat} {ps : List (Vec3 α)}
    (h : sizes.sum = ps.length) :
    collisionResponse? sizes ps = some (collisionResponse sizes ps) := by
  rw [collisionResponse?, cut?_eq_some (by simp [h]), List.drop_zero, Option.bind_eq_bind,
    Option.bind_some, separate?, mutualCorrections?_eq_some]
  rfl

end Polygon

/-! ## Aims -/

namespace TargetShape

/-- Each node is moved to its own point of the placed shape. -/
def respond? (shape : TargetShape α) (allowScaling : Bool) (ps : List (Vec3 α)) :
    Option (Response α) := do
  let placement := Placement.ofPoints shape allowScaling ps
  let targets ← slice? shape.points 0 ps.length
  return (ps.zip targets).map fun (p, t) => some (placement.apply t - p)

theorem respond?_eq_some {shape : TargetShape α} {ps : List (Vec3 α)}
    (h : shape.points.length = ps.length) (allowScaling : Bool) :
    shape.respond? allowScaling ps = some (shape.respond allowScaling ps) := by
  rw [respond?, slice?_zero (Nat.le_of_eq h.symm), List.take_of_length_le (Nat.le_of_eq h)]
  rfl

end TargetShape

namespace Aim

/-- How many of `n` nodes the aim looks at. -/
def reach (n : Nat) : Aim α → Nat
  | force _ => 0
  | anchor _ => 1
  | length _ | clampLength .. | direction _ => 2
  | angle _ => 3
  | equalLengths | parallelLines => 2 * (n / 2)
  | _ => n

omit [Scalar α] in
theorem reach_le {n : Nat} {aim : Aim α} (h : aim.Fits n) : aim.reach n ≤ n := by
  cases aim with
  | anchor _ | length _ | clampLength _ _ | direction _ | angle _ => exact Nat.le_of_eq h.symm
  | equalLengths | parallelLines => simp only [reach]; omega
  | _ => simp [reach]

omit [Scalar α] in
/-- Every aim looks at all of its nodes, except that a force looks at none. -/
theorem exists_force_or_take_reach {n : Nat} {aim : Aim α} {ps : List (Vec3 α)}
    (hfits : aim.Fits n) (h : ps.length = n) :
    (∃ push, aim = force push) ∨ ps.take (aim.reach n) = ps := by
  cases aim with
  | force push => exact .inl ⟨push, rfl⟩
  | anchor _ | length _ | clampLength _ _ | direction _ | angle _ =>
    exact .inr (List.take_of_length_le (Nat.le_of_eq (h.trans hfits)))
  | equalLengths | parallelLines =>
    have heven : n % 2 = 0 := hfits
    exact .inr (List.take_of_length_le (by simp only [reach]; omega))
  | _ => exact .inr (List.take_of_length_le (Nat.le_of_eq h))

/-- `Aim.respond` on the positions of the nodes that the aim looks at. -/
def respond? (aim : Aim α) (n : Nat) (ps : List (Vec3 α)) : Option (Response α) :=
  match aim with
  | onCurve shape | onSurface shape =>
    ps.mapM fun p => (shape.closestPoint? p).map fun q => some (q - p)
  | sphereCollision radius => Collision.spheresResponse? radius ps
  | convexPolygonCollision sizes => Polygon.collisionResponse? sizes ps
  | constantPressure faces pressure => FaceForce.respond? n (· * pressure) faces ps
  | constantVolumePressure faces amount => FaceForce.gasResponse? n amount faces ps
  | directionalWind faces wind => FaceForce.respond? n (FaceForce.windLoad wind) faces ps
  | shapeMatching shape allowScaling => shape.respond? allowScaling ps
  | _ => some (aim.respond n ps)

theorem respond?_eq_some {n : Nat} {aim : Aim α} {ps : List (Vec3 α)} (hfits : aim.Fits n)
    (h : ps.length = n) : aim.respond? n ps = some (aim.respond n ps) := by
  cases aim with
  | onCurve shape | onSurface shape =>
    exact mapM_eq_some_map fun p _ => by rw [Shape.closestPoint?_eq_some hfits]; rfl
  | sphereCollision radius =>
    simp only [respond?, respond, Collision.spheresResponse?_eq_some,
      List.take_of_length_le (Nat.le_of_eq h)]
  | convexPolygonCollision sizes =>
    exact Polygon.collisionResponse?_eq_some (hfits.trans h.symm)
  | constantPressure faces pressure => exact FaceForce.respond?_eq_some hfits h (· * pressure)
  | constantVolumePressure faces amount => exact FaceForce.gasResponse?_eq_some hfits h
  | directionalWind faces wind =>
    exact FaceForce.respond?_eq_some hfits h (FaceForce.windLoad wind)
  | shapeMatching shape allowScaling =>
    exact TargetShape.respond?_eq_some (hfits.trans h.symm) allowScaling
  | _ => rfl

theorem respond?_take_reach {n : Nat} {aim : Aim α} {ps : List (Vec3 α)} (hfits : aim.Fits n)
    (h : ps.length = n) :
    aim.respond? n (ps.take (aim.reach n)) = some (aim.respond n ps) := by
  rcases exists_force_or_take_reach hfits h with ⟨push, rfl⟩ | htake
  · rfl
  · rw [htake, respond?_eq_some hfits h]

/-- `Aim.readings` on the positions of the nodes that the aim looks at. -/
def readings? (aim : Aim α) (n : Nat) (ps : List (Vec3 α)) : Option (List (Reading α)) :=
  match aim with
  | onCurve shape | onSurface shape => do
    let distances ← ps.mapM fun p => (shape.closestPoint? p).map fun q => (q - p).norm
    return [.scalar (Scalar.sum distances / (ps.length : α))]
  | sphereCollision radius =>
    (Collision.overlapCount? radius ps).map fun count => [.scalar (count : α)]
  | constantVolumePressure faces _ => (FaceForce.volume? faces ps).map fun x => [.scalar x]
  | _ => some (aim.readings n ps)

theorem readings?_eq_some {n : Nat} {aim : Aim α} {ps : List (Vec3 α)} (hfits : aim.Fits n)
    (h : ps.length = n) : aim.readings? n ps = some (aim.readings n ps) := by
  cases aim with
  | onCurve shape | onSurface shape =>
    have hdistance : ∀ p ∈ ps, (shape.closestPoint? p).map (fun q => (q - p).norm) =
        some (shape.closestPoint p - p).norm :=
      fun p _ => by rw [Shape.closestPoint?_eq_some hfits]; rfl
    rw [readings?, mapM_eq_some_map hdistance]
    rfl
  | sphereCollision radius =>
    rw [readings?, Collision.overlapCount?_eq_some]
    rfl
  | constantVolumePressure faces amount =>
    rw [readings?, FaceForce.volume?_eq_some (h ▸ hfits)]
    rfl
  | _ => rfl

theorem readings?_take_reach {n : Nat} {aim : Aim α} {ps : List (Vec3 α)} (hfits : aim.Fits n)
    (h : ps.length = n) :
    aim.readings? n (ps.take (aim.reach n)) = some (aim.readings n ps) := by
  rcases exists_force_or_take_reach hfits h with ⟨push, rfl⟩ | htake
  · rfl
  · rw [htake, readings?_eq_some hfits h]

end Aim
end Relaxation
