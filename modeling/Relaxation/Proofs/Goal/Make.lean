import Relaxation.Goal.Make
import Relaxation.Proofs.Fault

/-!
# What the constructors of goals accept

For each constructor of `Relaxation.Goal.Make` the exact conditions under which it makes a goal,
and the goal it then makes. Every goal made is `Goal.ofAim` of an aim, its starting positions and
a usable weight.
-/

namespace Relaxation.Goal

variable {α : Type} [Scalar α] {g : Goal α} {weight : α}

/-- The direction is tested for length only once it is known to be finite. -/
theorem checkedDirection_eq_ok_iff {v u : Vec3 α} :
    checkedDirection v = .ok u ↔
      v.isFinite = true ∧ v.almostZero 1e-12 = false ∧ v.normalize = u := by
  unfold checkedDirection checkedUnit
  rw [Checked.check_bind_eq_ok, requireFinitePoint_eq_ok_iff]
  split <;> simp_all

/-- Both ends are tested before they are compared. -/
theorem checkRange_eq_ok_iff {min max : α} :
    checkRange min max = .ok () ↔ Usable min ∧ Usable max ∧ ¬max < min := by
  unfold checkRange
  simp only [Checked.check_bind_eq_ok, requireNonNegative_eq_ok_iff]
  split <;> simp_all

theorem checkAngle_eq_ok_iff {size : α} :
    checkAngle size = .ok () ↔ 0 ≤ size ∧ size ≤ Scalar.pi := by
  unfold checkAngle
  split <;> simp_all

omit [Scalar α] in
/-- Three vertices or more, and faces that stay within them. -/
theorem checkMesh_eq_ok_iff {kind : GoalKind} {vertices : List (Vec3 α)} {faces : List Face} :
    checkMesh kind vertices faces = .ok () ↔
      3 ≤ vertices.length ∧ faces ≠ [] ∧ ∀ f ∈ faces, f.Within vertices.length := by
  unfold checkMesh
  simp only [Checked.check_bind_eq_ok, requireAtLeast_eq_ok_iff]
  cases faces with
  | nil => simp [throw, throwThe, MonadExceptOf.throw, bind, Except.bind]
  | cons f faces =>
    simp only [List.isEmpty_cons, Bool.false_eq_true, if_false, requireFaces_eq_ok_iff, ne_eq,
      reduceCtorEq, not_false_eq_true, true_and]

/-- Only the count of the positions and the weight are checked. -/
theorem ofNodes_eq_ok_iff {aim : Aim α} {required : Nat} {points : List (Vec3 α)} :
    ofNodes aim required points weight = .ok g ↔
      required ≤ points.length ∧ Usable weight ∧ ofAim aim points weight = g := by
  simp only [ofNodes, Checked.check_bind_eq_ok, Checked.pure_eq_ok, requireAtLeast_eq_ok_iff,
    requireWeight_eq_ok_iff]

/-- The target is tested, the position that the node starts from is not. -/
theorem anchor_eq_ok_iff {position target : Vec3 α} :
    anchor position target weight = .ok g ↔
      target.isFinite = true ∧ Usable weight ∧ ofAim (.anchor target) [position] weight = g := by
  simp only [anchor, Checked.check_bind_eq_ok, Checked.pure_eq_ok, requireFinitePoint_eq_ok_iff,
    requireWeight_eq_ok_iff]

theorem force_eq_ok_iff {points : List (Vec3 α)} {push : Vec3 α} :
    force points push weight = .ok g ↔
      1 ≤ points.length ∧ push.isFinite = true ∧ Usable weight ∧
        ofAim (.force push) points weight = g := by
  simp only [force, Checked.check_bind_eq_ok, Checked.pure_eq_ok, requireAtLeast_eq_ok_iff,
    requireFinitePoint_eq_ok_iff, requireWeight_eq_ok_iff]

theorem length_eq_ok_iff {first last : Vec3 α} {rest : α} :
    length first last rest weight = .ok g ↔
      Usable rest ∧ Usable weight ∧ ofAim (.length rest) [first, last] weight = g := by
  simp only [length, Checked.check_bind_eq_ok, Checked.pure_eq_ok, requireNonNegative_eq_ok_iff,
    requireWeight_eq_ok_iff]

theorem clampLength_eq_ok_iff {first last : Vec3 α} {min max : α} :
    clampLength first last min max weight = .ok g ↔
      Usable weight ∧ (Usable min ∧ Usable max ∧ ¬max < min) ∧
        ofAim (.clampLength min max) [first, last] weight = g := by
  simp only [clampLength, Checked.check_bind_eq_ok, Checked.pure_eq_ok, checkRange_eq_ok_iff,
    requireWeight_eq_ok_iff]

/-- The ends come in pairs. -/
theorem equalLengths_eq_ok_iff {ends : List (Vec3 α)} :
    equalLengths ends weight = .ok g ↔
      (ends ≠ [] ∧ ends.length % 2 = 0) ∧ Usable weight ∧ ofAim .equalLengths ends weight = g := by
  simp only [equalLengths, Checked.check_bind_eq_ok, Checked.pure_eq_ok, requireEven_eq_ok_iff,
    requireWeight_eq_ok_iff]

theorem parallelLines_eq_ok_iff {ends : List (Vec3 α)} :
    parallelLines ends weight = .ok g ↔
      (ends ≠ [] ∧ ends.length % 2 = 0) ∧ Usable weight ∧
        ofAim .parallelLines ends weight = g := by
  simp only [parallelLines, Checked.check_bind_eq_ok, Checked.pure_eq_ok, requireEven_eq_ok_iff,
    requireWeight_eq_ok_iff]

/-- The goal keeps the unit vector of the direction it is given. -/
theorem direction_eq_ok_iff {first last along : Vec3 α} :
    direction first last along weight = .ok g ↔
      Usable weight ∧ along.isFinite = true ∧ along.almostZero 1e-12 = false ∧
        ofAim (.direction along.normalize) [first, last] weight = g := by
  unfold direction
  rw [Checked.check_bind_eq_ok, requireWeight_eq_ok_iff, Checked.bind_eq_ok]
  simp only [checkedDirection_eq_ok_iff, Checked.pure_eq_ok]
  constructor
  · rintro ⟨hw, u, ⟨hfin, hne, rfl⟩, rfl⟩
    exact ⟨hw, hfin, hne, rfl⟩
  · rintro ⟨hw, hfin, hne, rfl⟩
    exact ⟨hw, _, ⟨hfin, hne, rfl⟩, rfl⟩

theorem angle_eq_ok_iff {a vertex c : Vec3 α} {size : α} :
    angle a vertex c size weight = .ok g ↔
      Usable weight ∧ (0 ≤ size ∧ size ≤ Scalar.pi) ∧
        ofAim (.angle size) [a, vertex, c] weight = g := by
  simp only [angle, Checked.check_bind_eq_ok, Checked.pure_eq_ok, checkAngle_eq_ok_iff,
    requireWeight_eq_ok_iff]

theorem floor_eq_ok_iff {points : List (Vec3 α)} {height : α} :
    floor points height weight = .ok g ↔
      1 ≤ points.length ∧ Scalar.isFinite height = true ∧ Usable weight ∧
        ofAim (.floor height) points weight = g := by
  simp only [floor, Checked.check_bind_eq_ok, Checked.pure_eq_ok, requireAtLeast_eq_ok_iff,
    requireFinite_eq_ok_iff, requireWeight_eq_ok_iff]

theorem sphereCollision_eq_ok_iff {centers : List (Vec3 α)} {radius : α} :
    sphereCollision centers radius weight = .ok g ↔
      2 ≤ centers.length ∧ Usable radius ∧ Usable weight ∧
        ofAim (.sphereCollision radius) centers weight = g := by
  simp only [sphereCollision, Checked.check_bind_eq_ok, Checked.pure_eq_ok,
    requireAtLeast_eq_ok_iff, requireNonNegative_eq_ok_iff, requireWeight_eq_ok_iff]

theorem sphereStaticLineCollision_eq_ok_iff {centers : List (Vec3 α)}
    {segments : List (Vec3 α × Vec3 α)} {radius : α} :
    sphereStaticLineCollision centers segments radius weight = .ok g ↔
      1 ≤ centers.length ∧ Usable radius ∧ Usable weight ∧
        ofAim (.sphereStaticLineCollision segments radius) centers weight = g := by
  simp only [sphereStaticLineCollision, Checked.check_bind_eq_ok, Checked.pure_eq_ok,
    requireAtLeast_eq_ok_iff, requireNonNegative_eq_ok_iff, requireWeight_eq_ok_iff]

/-- The vertices of all polygons make one list of nodes, cut by the sizes. -/
theorem convexPolygonCollision_eq_ok_iff {polygons : List (List (Vec3 α))} :
    convexPolygonCollision polygons weight = .ok g ↔
      2 ≤ polygons.length ∧ Usable weight ∧ (∀ poly ∈ polygons, 3 ≤ poly.length) ∧
        ofAim (.convexPolygonCollision (polygons.map List.length)) polygons.flatten weight = g := by
  unfold convexPolygonCollision
  by_cases h : polygons.length < 2
  · simp only [h, if_true, throw, throwThe, MonadExceptOf.throw, bind, Except.bind, reduceCtorEq,
      false_iff, not_and]
    omega
  · have h2 : 2 ≤ polygons.length := by omega
    simp only [h, h2, if_false, true_and, Checked.check_bind_eq_ok, Checked.pure_eq_ok,
      Checked.forM_eq_ok_iff, requireAtLeast_eq_ok_iff, requireWeight_eq_ok_iff]

/-- A boundary that encloses no area is refused, and one that runs clockwise is reversed. -/
theorem convexPolygonContainment_eq_ok_iff {points boundary : List (Vec3 α)} :
    convexPolygonContainment points boundary weight = .ok g ↔
      1 ≤ points.length ∧ 3 ≤ boundary.length ∧ Usable weight ∧
        ¬Scalar.abs (Polygon.doubleArea (boundary.map Vec2.ofVec3)) < 1e-12 ∧
        ofAim (.convexPolygonContainment
          (if Polygon.doubleArea (boundary.map Vec2.ofVec3) < 0
            then (boundary.map Vec2.ofVec3).reverse else boundary.map Vec2.ofVec3))
          points weight = g := by
  unfold convexPolygonContainment
  simp only [Checked.check_bind_eq_ok, requireAtLeast_eq_ok_iff, requireWeight_eq_ok_iff]
  by_cases h : Scalar.abs (Polygon.doubleArea (boundary.map Vec2.ofVec3)) < 1e-12
  · simp [h, throw, throwThe, MonadExceptOf.throw, bind, Except.bind]
  · simp [h, Checked.pure_eq_ok]

theorem constantPressure_eq_ok_iff {vertices : List (Vec3 α)} {faces : List Face} {pressure : α} :
    constantPressure vertices faces pressure weight = .ok g ↔
      (3 ≤ vertices.length ∧ faces ≠ [] ∧ ∀ f ∈ faces, f.Within vertices.length) ∧
        Scalar.isFinite pressure = true ∧ Usable weight ∧
        ofAim (.constantPressure faces pressure) vertices weight = g := by
  simp only [constantPressure, Checked.check_bind_eq_ok, Checked.pure_eq_ok, checkMesh_eq_ok_iff,
    requireFinite_eq_ok_iff, requireWeight_eq_ok_iff]

theorem constantVolumePressure_eq_ok_iff {vertices : List (Vec3 α)} {faces : List Face}
    {amount : α} :
    constantVolumePressure vertices faces amount weight = .ok g ↔
      (3 ≤ vertices.length ∧ faces ≠ [] ∧ ∀ f ∈ faces, f.Within vertices.length) ∧
        Scalar.isFinite amount = true ∧ Usable weight ∧
        ofAim (.constantVolumePressure faces amount) vertices weight = g := by
  simp only [constantVolumePressure, Checked.check_bind_eq_ok, Checked.pure_eq_ok,
    checkMesh_eq_ok_iff, requireFinite_eq_ok_iff, requireWeight_eq_ok_iff]

theorem directionalWind_eq_ok_iff {vertices : List (Vec3 α)} {faces : List Face}
    {wind : Vec3 α} :
    directionalWind vertices faces wind weight = .ok g ↔
      (3 ≤ vertices.length ∧ faces ≠ [] ∧ ∀ f ∈ faces, f.Within vertices.length) ∧
        wind.isFinite = true ∧ Usable weight ∧
        ofAim (.directionalWind faces wind) vertices weight = g := by
  simp only [directionalWind, Checked.check_bind_eq_ok, Checked.pure_eq_ok, checkMesh_eq_ok_iff,
    requireFinitePoint_eq_ok_iff, requireWeight_eq_ok_iff]

/-- Node and shape points correspond one to one. -/
theorem shapeMatching_eq_ok_iff {points shape : List (Vec3 α)} {allowScaling : Bool} :
    shapeMatching points shape allowScaling weight = .ok g ↔
      2 ≤ points.length ∧ Usable weight ∧ points.length = shape.length ∧
        ofAim (.shapeMatching (TargetShape.ofPoints shape) allowScaling) points weight = g := by
  unfold shapeMatching
  simp only [Checked.check_bind_eq_ok, requireAtLeast_eq_ok_iff, requireWeight_eq_ok_iff]
  by_cases h : points.length = shape.length
  · simp [h, Checked.pure_eq_ok]
  · simp [h, throw, throwThe, MonadExceptOf.throw, bind, Except.bind]

end Relaxation.Goal
