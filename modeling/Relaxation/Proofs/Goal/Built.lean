import Mathlib.Algebra.GroupWithZero.Nat
import Relaxation.Goal.Change
import Relaxation.Proofs.Goal.Make

/-!
# Goals that can be built

`Goal.Made` holds of the goals that come out of a constructor, whatever line, plane, curve or surface
it was given, and `Goal.Built` of those that come out of one and any number of changes with meshes
whose faces have their corners among the vertices. Such a goal is sound (`Goal.Built.sound`): the
buffers of responses are as long as the list of starting positions, the aim refers to nothing beyond
it, and the weight is finite and not negative.
-/

namespace Relaxation

variable {α : Type}

/-- Every face has its corners among the vertices. -/
def TriangleMesh.Bounded (m : TriangleMesh α) : Prop := ∀ f ∈ m.faces, f.Within m.vertices.length

/-- A shape whose parts refer to nothing outside it. -/
def Shape.Bounded : Shape α → Prop
  | mesh m => m.Bounded
  | line _ | plane _ | sphere _ | polyline _ => True

/-- The shapes that an aim goes for, which are one or none. -/
def Aim.shapes : Aim α → List (Shape α)
  | onLine line => [.line line]
  | onPlane plane => [.plane plane]
  | onCurve shape | onSurface shape => [shape]
  | _ => []

/-- The shapes of an aim refer to nothing outside them. -/
def Aim.Bounded (aim : Aim α) : Prop := ∀ shape ∈ aim.shapes, shape.Bounded

/-- Most aims hold no shape, and have nothing to see to. -/
theorem Aim.Bounded.of_shapeless {aim : Aim α} (h : aim.shapes = []) : aim.Bounded := by
  rw [Bounded, h]
  exact List.forall_mem_nil _

/-- The local slots that an aim refers to are those of `n` nodes. -/
def Aim.Fits (n : Nat) : Aim α → Prop
  | anchor _ => n = 1
  | length _ | clampLength .. | direction _ => n = 2
  | equalLengths | parallelLines => n % 2 = 0
  | angle _ => n = 3
  | onCurve shape | onSurface shape => shape.Bounded
  | convexPolygonCollision sizes => sizes.sum = n
  | constantPressure faces _ | constantVolumePressure faces _ | directionalWind faces _ =>
    ∀ f ∈ faces, f.Within n
  | shapeMatching shape _ => shape.points.length = n
  | force _ | colinear | coplanar | cocircular | cospherical | coincident | onLine _ | onPlane _
  | floor _ | sphereCollision _ | sphereStaticLineCollision .. | convexPolygonContainment _ => True

variable [Scalar α]

/-! ## Shapes -/

omit [Scalar α] in
theorem TriangleMesh.make_eq_ok_iff {vertices : List (Vec3 α)} {faces : List Face}
    {m : TriangleMesh α} :
    TriangleMesh.make vertices faces = .ok m ↔
      (∀ f ∈ faces, f.Within vertices.length) ∧ faces ≠ [] ∧ ⟨vertices, faces⟩ = m := by
  unfold TriangleMesh.make
  rw [Checked.check_bind_eq_ok, requireFaces_eq_ok_iff]
  split <;> simp_all

/-- The shapes that come out of their own constructors. -/
inductive Shape.Built : Shape α → Prop
  | line {origin direction : Vec3 α} {l : Line α} :
    Line.make origin direction = .ok l → Built (.line l)
  | plane {origin normal : Vec3 α} {l : Plane α} :
    Plane.make origin normal = .ok l → Built (.plane l)
  | sphere (s : Sphere α) : Built (.sphere s)
  | polyline {points : List (Vec3 α)} {closed : Bool} {l : Polyline α} :
    Polyline.make points closed = .ok l → Built (.polyline l)
  | mesh {vertices : List (Vec3 α)} {faces : List Face} {m : TriangleMesh α} :
    TriangleMesh.make vertices faces = .ok m → Built (.mesh m)

/-- The faces of a mesh that is built refer to its own vertices. -/
theorem Shape.Built.bounded {shape : Shape α} (h : shape.Built) : shape.Bounded := by
  cases h with
  | mesh hm =>
    obtain ⟨hfaces, _, rfl⟩ := TriangleMesh.make_eq_ok_iff.mp hm
    exact hfaces
  | _ => trivial

/-! ## Goals from constructors -/

namespace Goal

/-- The goals that come out of a constructor. -/
inductive Made : Goal α → Prop
  | anchor {p target weight g} : anchor p target weight = .ok g → Made g
  | force {points push weight g} : force points push weight = .ok g → Made g
  | length {a b rest weight g} : length a b rest weight = .ok g → Made g
  | currentLength {a b weight g} : currentLength a b weight = .ok g → Made g
  | clampLength {a b min max weight g} : clampLength a b min max weight = .ok g → Made g
  | equalLengths {ends weight g} : equalLengths ends weight = .ok g → Made g
  | parallelLines {ends weight g} : parallelLines ends weight = .ok g → Made g
  | direction {a b along weight g} : direction a b along weight = .ok g → Made g
  | angle {a b c size weight g} : angle a b c size weight = .ok g → Made g
  | currentAngle {a b c weight g} : currentAngle a b c weight = .ok g → Made g
  | colinear {points weight g} : colinear points weight = .ok g → Made g
  | coplanar {points weight g} : coplanar points weight = .ok g → Made g
  | cocircular {points weight g} : cocircular points weight = .ok g → Made g
  | cospherical {points weight g} : cospherical points weight = .ok g → Made g
  | coincident {points weight g} : coincident points weight = .ok g → Made g
  | onLine {points line weight g} : onLine points line weight = .ok g → Made g
  | onPlane {points plane weight g} : onPlane points plane weight = .ok g → Made g
  | onCurve {points curve weight g} : onCurve points curve weight = .ok g → Made g
  | onSurface {points surface weight g} : onSurface points surface weight = .ok g → Made g
  | floor {points height weight g} : floor points height weight = .ok g → Made g
  | sphereCollision {centers radius weight g} :
    sphereCollision centers radius weight = .ok g → Made g
  | sphereStaticLineCollision {centers segments radius weight g} :
    sphereStaticLineCollision centers segments radius weight = .ok g → Made g
  | convexPolygonCollision {polygons weight g} :
    convexPolygonCollision polygons weight = .ok g → Made g
  | convexPolygonContainment {points boundary weight g} :
    convexPolygonContainment points boundary weight = .ok g → Made g
  | constantPressure {vertices faces pressure weight g} :
    constantPressure vertices faces pressure weight = .ok g → Made g
  | constantVolumePressure {vertices faces amount weight g} :
    constantVolumePressure vertices faces amount weight = .ok g → Made g
  | directionalWind {vertices faces wind weight g} :
    directionalWind vertices faces wind weight = .ok g → Made g
  | shapeMatching {points shape allowScaling weight g} :
    shapeMatching points shape allowScaling weight = .ok g → Made g

end Goal

/-- What the constructor of an aim makes sure of when there are `n` starting positions. -/
def Aim.Accepted (n : Nat) : Aim α → Prop
  | anchor target => n = 1 ∧ target.isFinite = true
  | force push => 1 ≤ n ∧ push.isFinite = true
  | length rest => n = 2 ∧ Usable rest
  | clampLength min max => n = 2 ∧ Usable min ∧ Usable max ∧ ¬max < min
  | equalLengths | parallelLines => n ≠ 0 ∧ n % 2 = 0
  | direction unit =>
    n = 2 ∧ ∃ v : Vec3 α, v.isFinite = true ∧ v.almostZero 1e-12 = false ∧ v.normalize = unit
  | angle size => n = 3 ∧ 0 ≤ size ∧ size ≤ Scalar.pi
  | onLine _ | onPlane _ | onCurve _ | onSurface _ => 1 ≤ n
  | coincident => 2 ≤ n
  | colinear => 3 ≤ n
  | coplanar | cocircular => 4 ≤ n
  | cospherical => 5 ≤ n
  | floor height => 1 ≤ n ∧ Scalar.isFinite height = true
  | sphereCollision radius => 2 ≤ n ∧ Usable radius
  | sphereStaticLineCollision _ radius => 1 ≤ n ∧ Usable radius
  | convexPolygonCollision sizes => 2 ≤ sizes.length ∧ (∀ size ∈ sizes, 3 ≤ size) ∧ sizes.sum = n
  | convexPolygonContainment boundary => 1 ≤ n ∧ 3 ≤ boundary.length
  | constantPressure faces number | constantVolumePressure faces number =>
    (3 ≤ n ∧ faces ≠ [] ∧ ∀ f ∈ faces, f.Within n) ∧ Scalar.isFinite number = true
  | directionalWind faces wind =>
    (3 ≤ n ∧ faces ≠ [] ∧ ∀ f ∈ faces, f.Within n) ∧ wind.isFinite = true
  | shapeMatching shape _ =>
    2 ≤ n ∧ ∃ target : List (Vec3 α), target.length = n ∧ TargetShape.ofPoints target = shape

/-- What a constructor accepts fits its nodes, once the shapes within it are bounded. -/
theorem Aim.Accepted.fits {n : Nat} {aim : Aim α} (h : aim.Accepted n) (hshapes : aim.Bounded) :
    aim.Fits n := by
  cases aim with
  | force _ | colinear | coplanar | cocircular | cospherical | coincident | onLine _ | onPlane _
  | floor _ | sphereCollision _ | sphereStaticLineCollision _ _ | convexPolygonContainment _ =>
    trivial
  | anchor _ | length _ | clampLength _ _ | direction _ | angle _ => exact h.1
  | equalLengths | parallelLines => exact h.2
  | onCurve shape | onSurface shape => exact hshapes shape (List.mem_singleton_self shape)
  | convexPolygonCollision _ => exact h.2.2
  | constantPressure _ _ | constantVolumePressure _ _ | directionalWind _ _ => exact h.1.2.2
  | shapeMatching _ _ =>
    obtain ⟨_, target, hlen, rfl⟩ := h
    exact (List.length_map ..).trans hlen

namespace Goal

/-- A goal as a constructor leaves it. -/
theorem Made.exists_accepted {g : Goal α} (h : Made g) :
    ∃ aim starts weight, ofAim aim starts weight = g ∧ aim.Accepted starts.length ∧
      Usable weight := by
  cases h with
  | anchor h =>
    obtain ⟨hfinite, hw, rfl⟩ := anchor_eq_ok_iff.mp h
    exact ⟨_, _, _, rfl, ⟨rfl, hfinite⟩, hw⟩
  | force h =>
    obtain ⟨hlen, hfinite, hw, rfl⟩ := force_eq_ok_iff.mp h
    exact ⟨_, _, _, rfl, ⟨hlen, hfinite⟩, hw⟩
  | length h | currentLength h =>
    obtain ⟨hrest, hw, rfl⟩ := length_eq_ok_iff.mp h
    exact ⟨_, _, _, rfl, ⟨rfl, hrest⟩, hw⟩
  | clampLength h =>
    obtain ⟨hw, hrange, rfl⟩ := clampLength_eq_ok_iff.mp h
    exact ⟨_, _, _, rfl, ⟨rfl, hrange⟩, hw⟩
  | equalLengths h =>
    obtain ⟨⟨hne, heven⟩, hw, rfl⟩ := equalLengths_eq_ok_iff.mp h
    exact ⟨_, _, _, rfl, ⟨mt List.length_eq_zero_iff.mp hne, heven⟩, hw⟩
  | parallelLines h =>
    obtain ⟨⟨hne, heven⟩, hw, rfl⟩ := parallelLines_eq_ok_iff.mp h
    exact ⟨_, _, _, rfl, ⟨mt List.length_eq_zero_iff.mp hne, heven⟩, hw⟩
  | direction h =>
    obtain ⟨hw, hfinite, hlong, rfl⟩ := direction_eq_ok_iff.mp h
    exact ⟨_, _, _, rfl, ⟨rfl, _, hfinite, hlong, rfl⟩, hw⟩
  | angle h | currentAngle h =>
    obtain ⟨hw, hsize, rfl⟩ := angle_eq_ok_iff.mp h
    exact ⟨_, _, _, rfl, ⟨rfl, hsize⟩, hw⟩
  | colinear h | coplanar h | cocircular h | cospherical h | coincident h | onLine h | onPlane h
  | onCurve h | onSurface h =>
    obtain ⟨hlen, hw, rfl⟩ := ofNodes_eq_ok_iff.mp h
    exact ⟨_, _, _, rfl, hlen, hw⟩
  | floor h =>
    obtain ⟨hlen, hheight, hw, rfl⟩ := floor_eq_ok_iff.mp h
    exact ⟨_, _, _, rfl, ⟨hlen, hheight⟩, hw⟩
  | sphereCollision h =>
    obtain ⟨hlen, hradius, hw, rfl⟩ := sphereCollision_eq_ok_iff.mp h
    exact ⟨_, _, _, rfl, ⟨hlen, hradius⟩, hw⟩
  | sphereStaticLineCollision h =>
    obtain ⟨hlen, hradius, hw, rfl⟩ := sphereStaticLineCollision_eq_ok_iff.mp h
    exact ⟨_, _, _, rfl, ⟨hlen, hradius⟩, hw⟩
  | convexPolygonCollision h =>
    obtain ⟨hmany, hw, hcorners, rfl⟩ := convexPolygonCollision_eq_ok_iff.mp h
    refine ⟨_, _, _, rfl, ⟨?_, List.forall_mem_map.mpr hcorners, List.length_flatten.symm⟩, hw⟩
    rwa [List.length_map]
  | convexPolygonContainment h =>
    obtain ⟨hlen, hcorners, hw, _, rfl⟩ := convexPolygonContainment_eq_ok_iff.mp h
    refine ⟨_, _, _, rfl, ⟨hlen, ?_⟩, hw⟩
    split <;> simpa using hcorners
  | constantPressure h =>
    obtain ⟨hmesh, hpressure, hw, rfl⟩ := constantPressure_eq_ok_iff.mp h
    exact ⟨_, _, _, rfl, ⟨hmesh, hpressure⟩, hw⟩
  | constantVolumePressure h =>
    obtain ⟨hmesh, hamount, hw, rfl⟩ := constantVolumePressure_eq_ok_iff.mp h
    exact ⟨_, _, _, rfl, ⟨hmesh, hamount⟩, hw⟩
  | directionalWind h =>
    obtain ⟨hmesh, hwind, hw, rfl⟩ := directionalWind_eq_ok_iff.mp h
    exact ⟨_, _, _, rfl, ⟨hmesh, hwind⟩, hw⟩
  | shapeMatching h =>
    obtain ⟨hlen, hw, hsame, rfl⟩ := shapeMatching_eq_ok_iff.mp h
    exact ⟨_, _, _, rfl, ⟨hlen, _, hsame.symm, rfl⟩, hw⟩

end Goal

/-! ## Changes -/

omit [Scalar α] in
/-- A shape that an amendment brings in refers to nothing outside it. -/
def Amendment.Bounded : Amendment α → Prop
  | .onCurve shape | .onSurface shape => ∀ s ∈ shape, s.Bounded
  | _ => True

/-- The slots that an aim refers to stay in range when its parameters change. -/
theorem Aim.Fits.amend {n : Nat} {aim aim' : Aim α} {a : Amendment α} (hfits : aim.Fits n)
    (ha : a.Bounded) (h : aim.amend a = .ok aim') : aim'.Fits n := by
  unfold Aim.amend at h
  split at h
  case h_1 | h_2 | h_3 | h_4 | h_6 | h_11 | h_12 | h_13 | h_14 | h_15 | h_16 =>
    obtain ⟨_, h⟩ := Checked.check_bind_eq_ok.mp h
    cases Checked.pure_eq_ok.mp h
    exact hfits
  case h_5 =>
    obtain ⟨_, _, h⟩ := Checked.bind_eq_ok.mp h
    cases Checked.pure_eq_ok.mp h
    exact hfits
  case h_7 | h_8 | h_17 | h_18 =>
    cases h
    exact hfits
  -- Only these two amendments bring in a shape, which has to be bounded itself.
  case h_9 old shape | h_10 old shape =>
    cases h
    cases shape with
    | none => exact hfits
    | some s => exact ha s rfl

namespace Goal

/-- A change replaces the parameters and, when it gives one, the weight; starts and buffers stay. -/
theorem change_eq_ok_iff {g g' : Goal α} {a : Amendment α} {weight : Option α} :
    g.change a weight = .ok g' ↔ ∃ aim, g.aim.amend a = .ok aim ∧ (∀ w ∈ weight, Usable w) ∧
      { g with aim, weight := weight.getD g.weight } = g' := by
  unfold change
  rw [Checked.bind_eq_ok]
  simp only [Checked.check_bind_eq_ok, Checked.option_forM_eq_ok_iff, requireWeight_eq_ok_iff,
    Checked.pure_eq_ok]

/-- A goal with a slot in each buffer of responses for every starting position, an aim that refers
to these slots only, and a usable weight. -/
structure Sound (g : Goal α) : Prop where
  moves_length : g.moves.length = g.nodeCount
  weights_length : g.weights.length = g.nodeCount
  fits : g.aim.Fits g.nodeCount
  usable_weight : Usable g.weight

theorem Made.moves_length {g : Goal α} (h : g.Made) : g.moves.length = g.nodeCount := by
  obtain ⟨_, _, _, rfl, _⟩ := h.exists_accepted
  exact List.length_map ..

theorem Made.weights_length {g : Goal α} (h : g.Made) : g.weights.length = g.nodeCount := by
  obtain ⟨_, _, _, rfl, _⟩ := h.exists_accepted
  exact List.length_map ..

/-- The buffers are made for the number of starting positions. -/
theorem Made.sound {g : Goal α} (h : g.Made) (hshapes : g.aim.Bounded) : g.Sound where
  moves_length := h.moves_length
  weights_length := h.weights_length
  fits := by
    obtain ⟨_, _, _, rfl, haccepted, _⟩ := h.exists_accepted
    exact haccepted.fits hshapes
  usable_weight := by
    obtain ⟨_, _, _, rfl, _, hw⟩ := h.exists_accepted
    exact hw

theorem Sound.change {g g' : Goal α} {a : Amendment α} {weight : Option α} (hg : g.Sound)
    (ha : a.Bounded) (h : g.change a weight = .ok g') : g'.Sound := by
  obtain ⟨aim, haim, hweight, rfl⟩ := change_eq_ok_iff.mp h
  refine ⟨hg.moves_length, hg.weights_length, hg.fits.amend ha haim, ?_⟩
  cases weight with
  | none => exact hg.usable_weight
  | some w => exact hweight w rfl

/-- The goals that come out of a constructor and any number of accepted changes, with shapes that refer
to nothing outside them. -/
inductive Built : Goal α → Prop
  | made {g : Goal α} : Made g → g.aim.Bounded → Built g
  | change {g g' : Goal α} {a : Amendment α} {weight : Option α} :
    Built g → a.Bounded → g.change a weight = .ok g' → Built g'

/-- By induction on the changes, from the goal as it was made. -/
theorem Built.sound {g : Goal α} (h : g.Built) : g.Sound := by
  induction h with
  | made h hshapes => exact h.sound hshapes
  | change _ ha h ih => exact ih.change ha h

end Goal
end Relaxation
