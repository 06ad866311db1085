import Relaxation.Proofs.Goal.Lawful
import Relaxation.Proofs.Scenario

/-!
# What accepted descriptions ask for

Apart from the positions that nodes start at, a goal is steered by numbers of its own, such as a length
or a force, and by those of fixed geometry. The constructors look at the former and not at the latter, so
an accepted description asks for usable numbers exactly when its geometry does
(`GoalDescription.asks_usable_iff_geometry`). Exact numbers are finite, so among them that is a matter
of radii (`GoalDescription.asks_usable_iff_radii`), and directions and normals are made unit vectors on
the way (`GoalDescription.norm_axes`).
-/

namespace Relaxation

/-- Numbers that steer a goal. The radii among them are told apart. -/
structure Numbers (α : Type) where
  all : List α
  radii : List α

/-- The components of a vector, in order. -/
def Vec3.components {α : Type} (v : Vec3 α) : List α := [v.x, v.y, v.z]

/-- The numbers of a surface; the radius of a sphere is the only one that is a radius. -/
def SurfaceDescription.numbers {α : Type} : SurfaceDescription α → Numbers α
  | plane origin normal => ⟨origin.components ++ normal.components, []⟩
  | sphere center radius => ⟨radius :: center.components, [radius]⟩
  | mesh vertices _ => ⟨vertices.flatMap Vec3.components, []⟩

namespace GoalDescription

/-- The numbers of the goal itself. What is left out comes from the starting positions. -/
def own {α : Type} [Scalar α] : GoalDescription α → Numbers α
  | anchor position target weight => ⟨weight :: (target.getD position).components, []⟩
  | force _ vector weight | direction _ _ vector weight | directionalWind _ _ vector weight =>
    ⟨weight :: vector.components, []⟩
  | length first last rest weight => ⟨[weight, rest.getD (last - first).norm], []⟩
  | clampLength _ _ min max weight => ⟨[weight, min, max], []⟩
  | angle a vertex c size weight =>
    ⟨[weight, size.getD ((AngleAtVertex.between (a - vertex) (c - vertex)).getD 0)], []⟩
  | floor _ number weight | constantPressure _ _ number weight
  | constantVolumePressure _ _ number weight => ⟨[weight, number], []⟩
  | sphereCollision _ radius weight | sphereStaticLineCollision _ _ radius weight =>
    ⟨[weight, radius], [radius]⟩
  | equalLengths _ weight | parallelLines _ weight | colinear _ weight | coplanar _ weight
  | cocircular _ weight | cospherical _ weight | coincident _ weight | onLine _ _ _ weight
  | onPlane _ _ _ weight | onCurve _ _ _ weight | onSurface _ _ weight
  | convexPolygonCollision _ weight | convexPolygonContainment _ _ weight
  | shapeMatching _ _ _ weight => ⟨[weight], []⟩

/-- The numbers of the fixed geometry that the goal holds its nodes to. The heights of a boundary are
of no effect. -/
def geometry {α : Type} : GoalDescription α → Numbers α
  | onLine _ origin along _ | onPlane _ origin along _ =>
    ⟨origin.components ++ along.components, []⟩
  | onCurve _ points _ _ | shapeMatching _ points _ _ => ⟨points.flatMap Vec3.components, []⟩
  | onSurface _ surface _ => surface.numbers
  | sphereStaticLineCollision _ segments _ _ =>
    ⟨segments.flatMap fun (a, b) => a.components ++ b.components, []⟩
  | convexPolygonContainment _ boundary _ => ⟨boundary.flatMap fun p => [p.x, p.y], []⟩
  | anchor .. | force .. | length .. | clampLength .. | equalLengths .. | parallelLines ..
  | direction .. | angle .. | colinear .. | coplanar .. | cocircular .. | cospherical ..
  | coincident .. | floor .. | sphereCollision .. | convexPolygonCollision .. | constantPressure ..
  | constantVolumePressure .. | directionalWind .. => ⟨[], []⟩

end GoalDescription

/-- The unit vectors of a shape. -/
def Shape.axes {α : Type} : Shape α → List (Vec3 α)
  | line l => [l.direction]
  | plane l => [l.normal]
  | sphere _ | polyline _ | mesh _ => []

/-- The directions and normals of an aim. -/
def Aim.axes {α : Type} : Aim α → List (Vec3 α)
  | direction unit => [unit]
  | onLine line => [line.direction]
  | onPlane plane => [plane.normal]
  | onCurve shape | onSurface shape => shape.axes
  | _ => []

variable {α : Type} [Scalar α]

theorem Vec3.isFinite_iff {v : Vec3 α} :
    v.isFinite = true ↔ ∀ x ∈ v.components, Scalar.isFinite x = true := by
  simp [Vec3.isFinite, components, and_assoc]

namespace Numbers

/-- All of the numbers are finite, and the radii are not negative. -/
def Usable (n : Numbers α) : Prop :=
  (∀ x ∈ n.all, Scalar.isFinite x = true) ∧ ∀ r ∈ n.radii, ¬r < 0

instance (n : Numbers α) : Decidable n.Usable :=
  inferInstanceAs (Decidable (_ ∧ _))

/-! Numbers that stand beside a weight. -/

variable {weight x : α} {v : Vec3 α}

theorem usable_weight (hw : Relaxation.Usable weight) : Usable ⟨[weight], []⟩ :=
  ⟨by simp [hw.1], nofun⟩

theorem usable_number (hw : Relaxation.Usable weight) (hx : Scalar.isFinite x = true) :
    Usable ⟨[weight, x], []⟩ := ⟨by simp [hw.1, hx], nofun⟩

theorem usable_radius (hw : Relaxation.Usable weight) (hx : Relaxation.Usable x) :
    Usable ⟨[weight, x], [x]⟩ := ⟨by simp [hw.1, hx.1], by simp [hx.2]⟩

theorem usable_vector (hw : Relaxation.Usable weight) (hv : v.isFinite = true) :
    Usable ⟨weight :: v.components, []⟩ :=
  ⟨List.forall_mem_cons.mpr ⟨hw.1, Vec3.isFinite_iff.mp hv⟩, nofun⟩

end Numbers

/-- The description asks for nothing but usable numbers. -/
def GoalDescription.AsksUsable (d : GoalDescription α) : Prop := d.own.Usable ∧ d.geometry.Usable

instance (d : GoalDescription α) : Decidable d.AsksUsable := inferInstanceAs (Decidable (_ ∧ _))

namespace GoalDescription

variable {d : GoalDescription α} {g : Goal α}

/-- The constructors look at every number of the goal itself. Angles are held against their bounds, so
it takes finite bounds to make them finite. -/
theorem own_usable (hangle : ∀ x : α, 0 ≤ x → x ≤ Scalar.pi → Scalar.isFinite x = true)
    (h : d.build = .ok g) : d.own.Usable := by
  cases d with
  | anchor position target weight =>
    obtain ⟨hfinite, hw, _⟩ := Goal.anchor_eq_ok_iff.mp h
    exact Numbers.usable_vector hw hfinite
  | force points push weight =>
    obtain ⟨_, hfinite, hw, _⟩ := Goal.force_eq_ok_iff.mp h
    exact Numbers.usable_vector hw hfinite
  | length first last rest weight =>
    cases rest with
    | none =>
      obtain ⟨hrest, hw, _⟩ := Goal.length_eq_ok_iff.mp h
      exact Numbers.usable_number hw hrest.1
    | some rest =>
      obtain ⟨hrest, hw, _⟩ := Goal.length_eq_ok_iff.mp h
      exact Numbers.usable_number hw hrest.1
  | clampLength first last min max weight =>
    obtain ⟨hw, ⟨hmin, hmax, _⟩, _⟩ := Goal.clampLength_eq_ok_iff.mp h
    exact ⟨by simp [own, hw.1, hmin.1, hmax.1], nofun⟩
  | equalLengths ends weight =>
    obtain ⟨_, hw, _⟩ := Goal.equalLengths_eq_ok_iff.mp h
    exact Numbers.usable_weight hw
  | parallelLines ends weight =>
    obtain ⟨_, hw, _⟩ := Goal.parallelLines_eq_ok_iff.mp h
    exact Numbers.usable_weight hw
  | direction first last along weight =>
    obtain ⟨hw, hfinite, _⟩ := Goal.direction_eq_ok_iff.mp h
    exact Numbers.usable_vector hw hfinite
  | angle a vertex c size weight =>
    cases size with
    | none =>
      obtain ⟨hw, hsize, _⟩ := Goal.angle_eq_ok_iff.mp h
      exact Numbers.usable_number hw (hangle _ hsize.1 hsize.2)
    | some size =>
      obtain ⟨hw, hsize, _⟩ := Goal.angle_eq_ok_iff.mp h
      exact Numbers.usable_number hw (hangle _ hsize.1 hsize.2)
  | colinear _ weight | coplanar _ weight | cocircular _ weight | cospherical _ weight
  | coincident _ weight =>
    obtain ⟨_, hw, _⟩ := Goal.ofNodes_eq_ok_iff.mp h
    exact Numbers.usable_weight hw
  | onLine _ _ _ weight | onPlane _ _ _ weight | onCurve _ _ _ weight | onSurface _ _ weight =>
    obtain ⟨_, _, h⟩ := Checked.bind_eq_ok.mp h
    obtain ⟨_, hw, _⟩ := Goal.ofNodes_eq_ok_iff.mp h
    exact Numbers.usable_weight hw
  | floor points height weight =>
    obtain ⟨_, hheight, hw, _⟩ := Goal.floor_eq_ok_iff.mp h
    exact Numbers.usable_number hw hheight
  | sphereCollision centers radius weight =>
    obtain ⟨_, hr, hw, _⟩ := Goal.sphereCollision_eq_ok_iff.mp h
    exact Numbers.usable_radius hw hr
  | sphereStaticLineCollision centers segments radius weight =>
    obtain ⟨_, hr, hw, _⟩ := Goal.sphereStaticLineCollision_eq_ok_iff.mp h
    exact Numbers.usable_radius hw hr
  | convexPolygonCollision polygons weight =>
    obtain ⟨_, hw, _⟩ := Goal.convexPolygonCollision_eq_ok_iff.mp h
    exact Numbers.usable_weight hw
  | convexPolygonContainment points boundary weight =>
    obtain ⟨_, _, hw, _⟩ := Goal.convexPolygonContainment_eq_ok_iff.mp h
    exact Numbers.usable_weight hw
  | constantPressure vertices faces pressure weight =>
    obtain ⟨_, hpressure, hw, _⟩ := Goal.constantPressure_eq_ok_iff.mp h
    exact Numbers.usable_number hw hpressure
  | constantVolumePressure vertices faces amount weight =>
    obtain ⟨_, hamount, hw, _⟩ := Goal.constantVolumePressure_eq_ok_iff.mp h
    exact Numbers.usable_number hw hamount
  | directionalWind vertices faces wind weight =>
    obtain ⟨_, hwind, hw, _⟩ := Goal.directionalWind_eq_ok_iff.mp h
    exact Numbers.usable_vector hw hwind
  | shapeMatching points shape allowScaling weight =>
    obtain ⟨_, hw, _⟩ := Goal.shapeMatching_eq_ok_iff.mp h
    exact Numbers.usable_weight hw

end GoalDescription

/-! ## Unit vectors -/

theorem checkedUnit_eq_ok_iff {part : Part} {what : String} {v u : Vec3 α} :
    checkedUnit part what v = .ok u ↔ v.almostZero 1e-12 = false ∧ v.normalize = u := by
  unfold checkedUnit
  split <;> simp_all

/-- In exact arithmetic the vectors that pass are given their length. -/
theorem norm_of_checkedUnit_eq_ok {part : Part} {what : String} {v u : Vec3 ℝ}
    (h : checkedUnit part what v = .ok u) : u.norm = 1 := by
  obtain ⟨hlong, rfl⟩ := checkedUnit_eq_ok_iff.mp h
  have htolerance : (0 : ℝ) < 1e-12 := by norm_num
  have hne := Vec3.ne_zero_of_not_almostZero htolerance (ne_true_of_eq_false hlong)
  exact Vec3.norm_normalize hne

theorem Shape.Built.norm_axes {shape : Shape ℝ} (h : shape.Built) :
    ∀ u ∈ shape.axes, u.norm = 1 := by
  cases h with
  | line h | plane h =>
    obtain ⟨u, hu, h⟩ := Checked.bind_eq_ok.mp h
    cases Checked.pure_eq_ok.mp h
    exact List.forall_mem_singleton.mpr (norm_of_checkedUnit_eq_ok hu)
  | sphere | polyline | mesh => nofun

/-- The unit vectors of an aim are its direction or those of its shape. -/
theorem Aim.Accepted.norm_axes {n : Nat} {aim : Aim ℝ} (h : aim.Accepted n)
    (hshapes : ∀ shape ∈ aim.shapes, shape.Built) : ∀ u ∈ aim.axes, u.norm = 1 := by
  cases aim with
  | direction unit => exact List.forall_mem_singleton.mpr h.lawful.norm_direction
  | onLine line => exact (hshapes (.line line) (List.mem_singleton_self _)).norm_axes
  | onPlane plane => exact (hshapes (.plane plane) (List.mem_singleton_self _)).norm_axes
  | onCurve shape | onSurface shape =>
    exact (hshapes shape (List.mem_singleton_self shape)).norm_axes
  | _ => nofun

/-! ## What is asked for -/

namespace GoalDescription

/-- What an accepted description of rounded numbers asks for is usable exactly when its geometry is,
since every other number has been looked at. -/
theorem asks_usable_iff_geometry {d : GoalDescription Binary64} {g : Goal Binary64}
    (h : d.build = .ok g) : d.own.Usable ∧ (d.AsksUsable ↔ d.geometry.Usable) := by
  have hpi : Scalar.isFinite (Scalar.pi : Binary64) = true := by decide
  have hangle : ∀ x : Binary64, 0 ≤ x → x ≤ Scalar.pi → Scalar.isFinite x = true := fun _ =>
    Binary64.isFinite_of_le_of_le Scalar.Ordered.isFinite_zero hpi
  have hown := own_usable hangle h
  exact ⟨hown, and_iff_right hown⟩

section Exact

variable {d : GoalDescription ℝ} {g : Goal ℝ} (h : d.build = .ok g)

include h

/-- All exact numbers are finite, which leaves the radii of geometry. -/
theorem asks_usable_iff_radii :
    d.own.Usable ∧ (d.AsksUsable ↔ ∀ r ∈ d.geometry.radii, 0 ≤ r) := by
  have hown := own_usable (fun _ _ _ => rfl) h
  have hgeometry : d.geometry.Usable ↔ ∀ r ∈ d.geometry.radii, 0 ≤ r := by
    simp [Numbers.Usable, Scalar.isFinite]
  exact ⟨hown, (and_iff_right hown).trans hgeometry⟩

/-- In exact arithmetic the directions and normals of a goal are unit vectors. -/
theorem norm_axes : ∀ u ∈ g.aim.axes, u.norm = 1 := by
  obtain ⟨hmade, hshapes⟩ := made_and_shapes_built h
  obtain ⟨_, _, _, rfl, haccepted, _⟩ := hmade.exists_accepted
  exact haccepted.norm_axes hshapes

end Exact

/-- What a description asks for when it is accepted: one of rounded numbers, by
`asks_usable_iff_geometry`, and one of exact numbers, by `asks_usable_iff_radii` and `norm_axes`. Each
part holds whether or not the other description is accepted. -/
theorem asks_usable_iff (d : GoalDescription Binary64) (e : GoalDescription ℝ) :
    (∀ g, d.build = .ok g → d.own.Usable ∧ (d.AsksUsable ↔ d.geometry.Usable)) ∧
      ∀ g, e.build = .ok g → e.own.Usable ∧ (e.AsksUsable ↔ ∀ r ∈ e.geometry.radii, 0 ≤ r) ∧
        ∀ u ∈ g.aim.axes, u.norm = 1 := by
  refine ⟨fun g => asks_usable_iff_geometry, fun g h => ?_⟩
  obtain ⟨hown, hradii⟩ := asks_usable_iff_radii h
  exact ⟨hown, hradii, norm_axes h⟩

/-- A sphere and an exact line that nodes are held to. -/
theorem asks_usable_iff_sphere :
    let d : GoalDescription Binary64 := .onSurface [0] (.sphere 0 1) 1
    let d' : GoalDescription ℝ := .onLine [0] 0 Vec3.xAxis 1
    ∃ g g', d.build = .ok g ∧ d'.build = .ok g' ∧
      (d.own.Usable ∧ (d.AsksUsable ↔ d.geometry.Usable)) ∧
      d'.own.Usable ∧ (d'.AsksUsable ↔ ∀ r ∈ d'.geometry.radii, 0 ≤ r) ∧
        ∀ u ∈ g'.aim.axes, u.norm = 1 := by
  intro d d'
  obtain ⟨g, h⟩ : ∃ g, d.build = .ok g := by
    have hweight : Usable (1 : Binary64) := ⟨by decide, by decide⟩
    have hgoal : Goal.onSurface [0] (.sphere ⟨0, 1⟩) (1 : Binary64) = .ok _ :=
      Goal.ofNodes_eq_ok_iff.mpr ⟨le_rfl, hweight, rfl⟩
    exact ⟨_, Checked.bind_eq_ok.mpr ⟨_, rfl, hgoal⟩⟩
  obtain ⟨g', h'⟩ : ∃ g, d'.build = .ok g := by
    have hlong : (Vec3.xAxis : Vec3 ℝ).almostZero 1e-12 = false := by
      simp only [Vec3.almostZero, Vec3.xAxis, Scalar.abs_real, abs_one]
      norm_num
    have hline : Line.make 0 Vec3.xAxis = .ok (⟨0, Vec3.xAxis.normalize⟩ : Line ℝ) :=
      Checked.bind_eq_ok.mpr ⟨_, checkedUnit_eq_ok_iff.mpr ⟨hlong, rfl⟩, rfl⟩
    have hweight : Usable (1 : ℝ) := ⟨rfl, not_lt.mpr zero_le_one⟩
    have hgoal : Goal.onLine [0] ⟨0, Vec3.xAxis.normalize⟩ (1 : ℝ) = .ok _ :=
      Goal.ofNodes_eq_ok_iff.mpr ⟨le_rfl, hweight, rfl⟩
    exact ⟨_, Checked.bind_eq_ok.mpr ⟨_, hline, hgoal⟩⟩
  have husable := asks_usable_iff d d'
  exact ⟨g, g', h, h', husable.1 g h, husable.2 g' h'⟩

/-- No geometry is looked at: a sphere inside out, and geometry of numbers that are none or infinite.
The length of a direction is not looked at either, so one too long to be measured comes to nothing. -/
theorem accepts_unusable :
    let nan := Binary64.ofFloat (0.0 / 0.0)
    let infinity := Binary64.ofFloat (1.0 / 0.0)
    let descriptions : List (GoalDescription Binary64) :=
      [.onSurface [0] (.sphere 0 (-1)) 1,
        .onLine [0] ⟨nan, 0, 0⟩ Vec3.xAxis 1,
        .onPlane [0] 0 ⟨nan, 0, 0⟩ 1,
        .onCurve [0] [0, ⟨infinity, 0, 0⟩] false 1,
        .onSurface [0] (.mesh [⟨nan, 0, 0⟩, 0, 0] [⟨0, 1, 2⟩]) 1,
        .sphereStaticLineCollision [0] [(⟨nan, 0, 0⟩, 0)] 1 1,
        .convexPolygonContainment [0] [⟨nan, 0, 0⟩, 0, Vec3.xAxis] 1,
        .shapeMatching [0, Vec3.xAxis] [⟨infinity, 0, 0⟩, 0] false 1]
    let long : GoalDescription Binary64 :=
      .direction 0 Vec3.xAxis ⟨Binary64.ofFloat 1e200, 0, 0⟩ 1
    (∀ d ∈ descriptions, d.build.toOption.isSome = true ∧ ¬d.AsksUsable) ∧
      ∃ g u, long.build = .ok g ∧ g.aim = .direction u ∧ ¬0 < u.norm := by
  intro nan infinity descriptions long
  refine ⟨by decide, ?_⟩
  have hweight : Usable (1 : Binary64) := ⟨by decide, by decide⟩
  have hbuild : long.build = .ok _ :=
    Goal.direction_eq_ok_iff.mpr ⟨hweight, by decide +kernel, by decide +kernel, rfl⟩
  exact ⟨_, _, hbuild, rfl, by decide +kernel⟩

end GoalDescription
end Relaxation
