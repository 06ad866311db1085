import Mathlib.Data.Real.Basic
import Relaxation.Proofs.Domain.Collision
import Relaxation.Proofs.Domain.Pairwise
import Relaxation.Proofs.Domain.ShapeMatching
import Relaxation.Proofs.Goal.Proper

/-!
# Goals stay inside the domain

A goal that was built, and does not go for a mesh, responds without a division by zero, a root of a
negative number or a clamp between inverted bounds wherever its nodes are
(`Goal.Built.responds_in_domain`). The fits may use any decomposition that is exact where it
succeeds; with `Svd.decompose` the response is that of `Goal.compute`.
-/

namespace Relaxation

/-- The aim does not go for a triangle mesh. -/
def Aim.Meshless : Aim ℝ → Prop
  | .onCurve shape | .onSurface shape => ∀ m, shape ≠ .mesh m
  | _ => True

namespace Domain

noncomputable section

/-! ## Aims -/

section Decomposition

variable (decompose : Decomposition)

/-- The response of an aim whose fits use the given decomposition. -/
def respondBy (aim : Aim ℝ) (n : Nat) (ps : List (Vec3 ℝ)) : Response ℝ :=
  match aim with
  | .colinear => Projection.ontoFit (·.closestPoint) (lineFit decompose ps) n ps
  | .coplanar => Projection.ontoFit (·.closestPoint) (planeFit decompose ps) n ps
  | .cocircular => Projection.ontoFit Circle.closestPoint (circleFit decompose ps) n ps
  | aim => aim.respond n ps

theorem respondBy_decompose (aim : Aim ℝ) (n : Nat) (ps : List (Vec3 ℝ)) :
    respondBy Svd.decompose aim n ps = aim.respond n ps := by
  cases aim with
  | colinear => rw [respondBy, lineFit_decompose]; rfl
  | coplanar => rw [respondBy, planeFit_decompose]; rfl
  | cocircular => rw [respondBy, circleFit_decompose]; rfl
  | _ => rfl

/-- The response of an aim. Anchors, forces, lines, planes and constant pressures contain no
operation that may fail. -/
def respond? (aim : Aim ℝ) (n : Nat) (ps : List (Vec3 ℝ)) : Option (Response ℝ) :=
  match aim with
  | .length rest => respondPairs? (toLength? rest) (ps.take 2)
  | .clampLength min max => respondPairs? (intoRange? min max) (ps.take 2)
  | .equalLengths => do
    let mean ← meanLength? (ps.take n)
    respondPairs? (toLength? mean) (ps.take n)
  | .parallelLines => parallelResponse? n (ps.take n)
  | .direction unit => respondPairs? (ontoDirection? unit) (ps.take 2)
  | .angle size => respondAngle? size (ps.take 3)
  | .colinear => ontoFit? (fun l p => some (l.closestPoint p)) (lineFit? decompose ps) n ps
  | .coplanar => ontoFit? (fun l p => some (l.closestPoint p)) (planeFit? decompose ps) n ps
  | .cocircular => ontoFit? closestOnCircle? (circleFit? decompose ps) n ps
  | .cospherical => ontoFit? closestOnSphere? (sphereFit? ps) n ps
  | .coincident => do
    let c ← centroid? ps
    return Response.project (fun _ => c) ps
  | .onCurve curve => project? (closestOnShape? curve) ps
  | .onSurface surface => project? (closestOnShape? surface) ps
  | .floor height => respondFloor? height ps
  | .sphereCollision radius => respondSpheres? radius (ps.take n)
  | .sphereStaticLineCollision segments radius => respondSegments? radius segments ps
  | .convexPolygonCollision sizes => respondPolygons? sizes ps
  | .convexPolygonContainment boundary => respondContainment? boundary ps
  | .constantVolumePressure faces amount => respondGas? n amount faces ps
  | .directionalWind faces wind => respondLoads? n (windLoad? wind) faces ps
  | .shapeMatching shape allowScaling => respondMatching? shape allowScaling ps
  | .anchor _ | .force _ | .onLine _ | .onPlane _ | .constantPressure .. => some (aim.respond n ps)

variable {decompose}

/-- An even number of nodes that is not zero makes a pair. -/
theorem deltas_ne_nil {ps : List (Vec3 ℝ)} (heven : ps.length % 2 = 0) (hne : ps ≠ []) :
    Pairwise.deltas ps ≠ [] := by
  match ps with
  | [] => exact absurd rfl hne
  | [_] => simp at heven
  | _ :: _ :: _ => exact List.cons_ne_nil _ _

/-- One case for each aim. Few of them need what a constructor makes sure of: a mean of lengths
needs a pair, a clamp a range that is not inverted, and polygons need corners. -/
theorem respond?_eq_some (hexact : decompose.Exact) {aim : Aim ℝ} {n : Nat} {ps : List (Vec3 ℝ)}
    (hfits : aim.Fits n) (hproper : aim.Proper) (hmesh : aim.Meshless) (hn : ps.length = n)
    (hne : ps ≠ []) : respond? decompose aim n ps = some (respondBy decompose aim n ps) := by
  have htake : ps.take n = ps := List.take_of_length_le hn.le
  cases aim with
  | anchor _ | force _ | onLine _ | onPlane _ | constantPressure _ _ => rfl
  | length rest => exact respondPairs?_eq_some (toLength?_eq_some rest) _
  | clampLength min max => exact respondPairs?_eq_some (intoRange?_eq_some hproper) _
  | equalLengths =>
    have heven : n % 2 = 0 := hfits
    simp only [respond?, respondBy, Aim.respond, htake,
      meanLength?_eq_some (deltas_ne_nil (hn ▸ heven) hne), Option.bind_eq_bind, Option.bind_some]
    exact respondPairs?_eq_some (toLength?_eq_some _) ps
  | parallelLines => exact parallelResponse?_eq_some n _
  | direction unit => exact respondPairs?_eq_some (ontoDirection?_eq_some unit) _
  | angle size => exact respondAngle?_eq_some size _
  | colinear => exact ontoFit?_eq_some (lineFit?_eq_some ps hexact) (fun _ _ _ => rfl) n ps
  | coplanar => exact ontoFit?_eq_some (planeFit?_eq_some ps hexact) (fun _ _ _ => rfl) n ps
  | cocircular =>
    exact ontoFit?_eq_some (circleFit?_eq_some ps hexact)
      (fun _ hc => closestOnCircle?_eq_some (normal_ne_zero_of_mem_circleFit ps hexact hc)) n ps
  | cospherical =>
    exact ontoFit?_eq_some (sphereFit?_eq_some ps) (fun s _ => closestOnSphere?_eq_some s) n ps
  | coincident => rw [respond?, centroid?_eq_some]; rfl
  | onCurve shape | onSurface shape => exact project?_eq_some (closestOnShape?_eq_some hmesh) ps
  | floor height => exact respondFloor?_eq_some height ps
  | sphereCollision radius => exact respondSpheres?_eq_some radius _
  | sphereStaticLineCollision segments radius => exact respondSegments?_eq_some radius segments ps
  | convexPolygonCollision sizes => exact respondPolygons?_eq_some hproper (hfits.trans hn.symm)
  | convexPolygonContainment boundary => exact respondContainment?_eq_some boundary ps
  | constantVolumePressure faces amount => exact respondGas?_eq_some n amount faces ps
  | directionalWind faces wind => exact respondLoads?_eq_some (windLoad?_eq_some wind) n faces ps
  | shapeMatching shape allowScaling => exact respondMatching?_eq_some shape allowScaling ps

end Decomposition

/-! ## Goals -/

/-- The responses of a goal, written over those it held. -/
def compute? (decompose : Decomposition) (pool : Pool ℝ) (g : Goal ℝ) : Option (Goal ℝ) := do
  let response ← respond? decompose g.aim g.nodeCount (g.positions pool)
  return { g with
    moves := overwrite response.moves g.moves
    weights := overwrite (response.weights g.weight) g.weights }

end

end Domain

/-- Attached to as many nodes as it has starting positions, whatever their positions are and
whatever it responded before, a goal has a response that leaves the domain nowhere. -/
theorem Goal.Built.responds_in_domain {g : Goal ℝ} (hg : g.Built) (hmesh : g.aim.Meshless)
    (pool : Pool ℝ) {nodes : List Nat} (hnodes : nodes.length = g.nodeCount)
    (moves : List (Vec3 ℝ)) (weights : List ℝ) :
    let attached : Goal ℝ := { g with nodes, moves, weights }
    (∀ decompose : Domain.Decomposition, decompose.Exact →
      (Domain.compute? decompose pool attached).isSome) ∧
    Domain.compute? Svd.decompose pool attached = some (attached.compute pool) := by
  intro attached
  have hlen : (attached.positions pool).length = g.nodeCount :=
    (List.length_map ..).trans hnodes
  have hne : attached.positions pool ≠ [] := by
    refine List.ne_nil_of_length_pos (hlen ▸ ?_)
    exact List.length_pos_of_ne_nil hg.proper.starts_ne_nil
  have hrespond : ∀ decompose : Domain.Decomposition, decompose.Exact →
      Domain.respond? decompose attached.aim attached.nodeCount (attached.positions pool) =
        some (Domain.respondBy decompose attached.aim attached.nodeCount
          (attached.positions pool)) := fun _ hexact =>
    Domain.respond?_eq_some hexact hg.sound.fits hg.proper.aim_proper hmesh hlen hne
  constructor
  · intro decompose hexact
    rw [Domain.compute?, hrespond decompose hexact]
    rfl
  · rw [Domain.compute?, hrespond Svd.decompose Domain.exact_decompose,
      Domain.respondBy_decompose]
    rfl

/-- Three nodes that lie in one line, with the vertex between the others, have an angle to be
turned to. -/
theorem Goal.Built.responds_in_domain_straight :
    let g : Goal ℝ := Goal.ofAim (.angle 1) [Vec3.xAxis, 0, Vec3.zAxis] 1
    let pool : Pool ℝ := #[.atRest Vec3.xAxis, .atRest 0, .atRest (-Vec3.xAxis)]
    (g.Built ∧ g.aim.Meshless ∧ [0, 1, 2].length = g.nodeCount) ∧
      (∀ decompose : Domain.Decomposition, decompose.Exact →
        (Domain.compute? decompose pool { g with nodes := [0, 1, 2] }).isSome) ∧
      Domain.compute? Svd.decompose pool { g with nodes := [0, 1, 2] } =
        some (({ g with nodes := [0, 1, 2] } : Goal ℝ).compute pool) := by
  intro g pool
  have hpi : (1 : ℝ) ≤ Scalar.pi := one_le_two.trans Real.two_le_pi
  have hmade : Goal.angle Vec3.xAxis 0 Vec3.zAxis 1 1 = .ok g :=
    Goal.angle_eq_ok_iff.mpr ⟨usable_real_iff.mpr zero_le_one, ⟨zero_le_one, hpi⟩, rfl⟩
  have hbuilt : g.Built := .made (.angle hmade) (.of_shapeless rfl)
  exact ⟨⟨hbuilt, trivial, rfl⟩,
    hbuilt.responds_in_domain trivial pool rfl g.moves g.weights⟩

end Relaxation
