import Mathlib.Algebra.BigOperators.Group.List.Lemmas
import Mathlib.Algebra.Group.Hom.Basic
import Mathlib.Data.Real.Basic
import Relaxation.Proofs.Goal.Parameter
import Relaxation.Proofs.Goal.Response
import Relaxation.Proofs.Goal.ShapeMatching

/-!
# Goals that keep the centroid of their nodes

The moves of a goal for pairs are opposite in every pair, since each end takes half of the correction.
The fits project along a linear map of the offset from the centroid, and a shape is placed with its
centroid on that of the nodes. In exact arithmetic the moves of all these goals sum up to nothing,
whatever axes or rotation a decomposition came up with (`Goal.Built.keeps_centroid`).
-/

namespace Relaxation

/-- The goals that correct the vectors between the nodes of pairs. -/
def GoalKind.OnPairs : GoalKind → Prop
  | .length | .clampLength | .equalLengths | .parallelLines | .direction => True
  | _ => False

/-- The goals whose moves balance each other. -/
def GoalKind.Balanced : GoalKind → Prop
  | .colinear | .coplanar | .coincident | .shapeMatching => True
  | kind => kind.OnPairs

/-! ## Corrections of pairs -/

namespace Response

theorem idle_eq_flatMap_split {α : Type} [Scalar α] (k : Nat) :
    (idle (2 * k) : Response α) = (List.replicate k none).flatMap split := by
  induction k with
  | zero => rfl
  | succ k ih =>
    rw [List.replicate_succ, List.flatMap_cons, ← ih]
    rfl

theorem moves_split (correction : Option (Vec3 ℝ)) :
    (split correction).moves =
      [correction.getD 0 * (0.5 : ℝ), -(correction.getD 0 * (0.5 : ℝ))] := by
  cases correction with
  | none =>
    rw [Option.getD_none, Vec3.mul_real, smul_zero, neg_zero]
    rfl
  | some c => rfl

theorem weights_split (weight : ℝ) (correction : Option (Vec3 ℝ)) :
    (split correction).weights weight =
      [if correction.isSome then weight else 0, if correction.isSome then weight else 0] := by
  cases correction <;> rfl

/-- The two ends of a pair stand next to each other, and each takes half of the correction. -/
theorem getElem?_flatMap_split (weight : ℝ) {corrections : List (Option (Vec3 ℝ))} {k : Nat}
    {correction : Option (Vec3 ℝ)} (h : corrections[k]? = some correction) :
    let response : Response ℝ := corrections.flatMap split
    let half := correction.getD 0 * (0.5 : ℝ)
    let w := if correction.isSome then weight else 0
    response.moves[2 * k]? = some half ∧ response.moves[2 * k + 1]? = some (-half) ∧
      (response.weights weight)[2 * k]? = some w ∧
      (response.weights weight)[2 * k + 1]? = some w := by
  induction corrections generalizing k with
  | nil => cases h
  | cons c corrections ih =>
    dsimp only
    rw [List.flatMap_cons, moves, weights, List.map_append, List.map_append, ← moves, ← weights,
      moves_split c, weights_split weight c]
    cases k with
    | zero =>
      cases h
      exact ⟨rfl, rfl, rfl, rfl⟩
    | succ k => exact ih h

theorem sum_moves_flatMap_split (corrections : List (Option (Vec3 ℝ))) :
    (moves (corrections.flatMap split)).sum = 0 := by
  induction corrections with
  | nil => rfl
  | cons c corrections ih =>
    rw [List.flatMap_cons, moves, List.map_append, List.sum_append, ← moves, ← moves, ih,
      moves_split, List.sum_pair, add_neg_cancel, add_zero]

end Response

theorem Pairwise.respond_eq {α : Type} [Scalar α] (rule : Vec3 α → Option (Vec3 α))
    (ps : List (Vec3 α)) :
    Pairwise.respond rule ps = ((Pairwise.deltas ps).map rule).flatMap Response.split :=
  (List.flatMap_map ..).symm

/-- A goal for pairs corrects each of them or none. -/
theorem Aim.respond_onPairs {α : Type} [Scalar α] {aim : Aim α} {n : Nat}
    (hfits : aim.Fits n) (hkind : aim.kind.OnPairs) (ps : List (Vec3 α)) :
    ∃ corrections : List (Option (Vec3 α)),
      aim.respond n ps = corrections.flatMap Response.split := by
  cases aim with
  | length _ | clampLength _ _ | equalLengths | direction _ => exact ⟨_, Pairwise.respond_eq ..⟩
  | parallelLines =>
    have heven : n = 2 * (n / 2) := (Nat.mul_div_cancel' (Nat.dvd_of_mod_eq_zero hfits)).symm
    simp only [Aim.respond, Pairwise.parallelResponse]
    split
    · exact ⟨_, Pairwise.respond_eq ..⟩
    · rw [heven]
      exact ⟨_, Response.idle_eq_flatMap_split _⟩
  | _ => cases hkind

/-! ## Displacements about the centroid -/

namespace Response

@[simp] theorem moves_project (target : Vec3 ℝ → Vec3 ℝ) (ps : List (Vec3 ℝ)) :
    (project target ps).moves = ps.map fun p => target p - p :=
  List.map_map ..

theorem sum_moves_idle (n : Nat) : (idle n : Response ℝ).moves.sum = 0 := by
  rw [idle, moves, List.map_replicate, List.sum_replicate]
  exact nsmul_zero n

/-- Displacements that are additive in the offset from the centroid sum up to nothing, as the offsets
do. -/
theorem sum_moves_project {target : Vec3 ℝ → Vec3 ℝ} {ps : List (Vec3 ℝ)}
    (displace : Vec3 ℝ →+ Vec3 ℝ)
    (h : ∀ p, target p - p = displace (p - Vec3.centroid ps)) :
    (project target ps).moves.sum = 0 := by
  calc (project target ps).moves.sum
      = ((ps.map (· - Vec3.centroid ps)).map displace).sum := by
        rw [moves_project, List.map_map]
        exact congrArg List.sum (List.map_congr_left fun p _ => h p)
    _ = displace (ps.map (· - Vec3.centroid ps)).sum := (map_list_sum displace _).symm
    _ = 0 := by rw [Vec3.sum_sub_centroid, map_zero]

end Response

/-- What a projection along a direction leaves of an offset. -/
noncomputable def Vec3.component (d : Vec3 ℝ) : Vec3 ℝ →+ Vec3 ℝ :=
  AddMonoidHom.mk' (fun v => d * v.dot d) fun v w => by
    rw [dot_comm, dot_add, dot_comm d v, dot_comm d w, mul_real, add_smul]
    rfl

section Origins

variable {α : Type} [Scalar α] {ps : List (Vec3 α)}

theorem PrincipalAxes.centroid_eq_of_ok {axes : PrincipalAxes α} (h : ofPoints ps = .ok axes) :
    axes.centroid = Vec3.centroid ps := by
  obtain ⟨d, _, h⟩ := Checked.bind_eq_ok.mp h
  cases Checked.pure_eq_ok.mp h
  rfl

theorem LineFit.origin_eq_of_ok {l : LineFit α} (h : ofPoints ps = .ok l) :
    l.origin = Vec3.centroid ps := by
  obtain ⟨axes, haxes, h⟩ := Checked.bind_eq_ok.mp h
  cases Checked.pure_eq_ok.mp h
  exact PrincipalAxes.centroid_eq_of_ok haxes

theorem PlaneFit.origin_eq_of_ok {l : PlaneFit α} (h : ofPoints ps = .ok l) :
    l.origin = Vec3.centroid ps := by
  obtain ⟨axes, haxes, h⟩ := Checked.bind_eq_ok.mp h
  cases Checked.pure_eq_ok.mp h
  exact PrincipalAxes.centroid_eq_of_ok haxes

end Origins

namespace Projection

/-- The axis may point anywhere; a decomposition that gives up leaves the nodes alone. -/
theorem sum_moves_ontoLineFit (n : Nat) (ps : List (Vec3 ℝ)) :
    (ontoLineFit n ps).moves.sum = 0 := by
  unfold ontoLineFit
  cases hfit : LineFit.ofPoints ps with
  | error _ => exact Response.sum_moves_idle n
  | ok l =>
    refine Response.sum_moves_project (Vec3.component l.direction - .id _) fun p => ?_
    rw [← LineFit.origin_eq_of_ok hfit]
    change l.origin + l.direction * (p - l.origin).dot l.direction - p =
      l.direction * (p - l.origin).dot l.direction - (p - l.origin)
    abel

theorem sum_moves_ontoPlaneFit (n : Nat) (ps : List (Vec3 ℝ)) :
    (ontoPlaneFit n ps).moves.sum = 0 := by
  unfold ontoPlaneFit
  cases hfit : PlaneFit.ofPoints ps with
  | error _ => exact Response.sum_moves_idle n
  | ok l =>
    refine Response.sum_moves_project (-Vec3.component l.normal) fun p => ?_
    rw [← PlaneFit.origin_eq_of_ok hfit]
    exact sub_sub_cancel_left ..

theorem sum_moves_ontoCentroid (ps : List (Vec3 ℝ)) : (ontoCentroid ps).moves.sum = 0 :=
  Response.sum_moves_project (-.id _) fun p => (neg_sub p _).symm

end Projection

/-! ## Placed shapes -/

/-- The linear part of a placement. -/
noncomputable def Placement.linear (x : Placement ℝ) : Vec3 ℝ →+ Vec3 ℝ :=
  AddMonoidHom.mk' (fun t => x.rotation * t * x.scale) fun s t => by
    ext <;> simp only [Vec3.mul_x, Vec3.mul_y, Vec3.mul_z, Mat3.mul_x, Mat3.mul_y, Mat3.mul_z,
      Vec3.add_x, Vec3.add_y, Vec3.add_z] <;> ring

theorem Placement.center_ofPoints (shape : TargetShape ℝ) (allowScaling : Bool)
    (ps : List (Vec3 ℝ)) : (ofPoints shape allowScaling ps).center = Vec3.centroid ps := by
  unfold ofPoints
  dsimp only
  split <;> rfl

namespace TargetShape

/-- The points of the shape are balanced about the center that they are placed on, which is the
centroid of the nodes. -/
theorem sum_moves_respond {shape : TargetShape ℝ} {ps : List (Vec3 ℝ)} (hsum : shape.points.sum = 0)
    (hlength : shape.points.length = ps.length) (allowScaling : Bool) :
    (shape.respond allowScaling ps).moves.sum = 0 := by
  set x := Placement.ofPoints shape allowScaling ps with hx
  have hcenter : x.center = Vec3.centroid ps := Placement.center_ofPoints ..
  calc (shape.respond allowScaling ps).moves.sum
      = ((ps.zip shape.points).map fun q => x.linear q.2 + (Vec3.centroid ps - q.1)).sum := by
        rw [respond, Response.moves, List.map_map]
        refine congrArg List.sum (List.map_congr_left fun q _ => ?_)
        rw [← hcenter, ← add_sub_assoc]
        rfl
    _ = (((ps.zip shape.points).map Prod.snd).map x.linear).sum +
          (((ps.zip shape.points).map Prod.fst).map (Vec3.centroid ps - ·)).sum := by
        rw [List.sum_map_add, List.map_map, List.map_map]
        rfl
    _ = x.linear shape.points.sum + (Projection.ontoCentroid ps).moves.sum := by
        rw [List.map_snd_zip hlength.le, List.map_fst_zip hlength.ge, map_list_sum,
          Projection.ontoCentroid, Response.moves_project]
    _ = 0 := by rw [hsum, map_zero, Projection.sum_moves_ontoCentroid, add_zero]

end TargetShape

/-! ## Goals -/

/-- A shape that a goal is made with is centered, and no change replaces it. -/
theorem Goal.Built.isCentered {g : Goal ℝ} (h : g.Built) {shape : TargetShape ℝ}
    (hshape : g.aim.fixture = .shape shape) : shape.IsCentered := by
  induction h with
  | made h _ =>
    obtain ⟨aim, _, _, rfl, haccepted, _⟩ := h.exists_accepted
    cases aim with
    | shapeMatching _ _ =>
      obtain ⟨_, target, _, rfl⟩ := haccepted
      cases hshape
      exact TargetShape.isCentered_ofPoints target
    | _ => cases hshape
  | change _ _ h ih =>
    obtain ⟨aim, haim, _, rfl⟩ := change_eq_ok_iff.mp h
    exact ih ((Aim.fixture_amend haim).symm.trans hshape)

namespace Goal

/-- The two ends of every pair are asked for opposite moves with equal weights. -/
def PairsOpposed (g : Goal ℝ) : Prop :=
  ∀ k, 2 * k + 1 < g.nodeCount → ∃ m w,
    g.moves[2 * k]? = some m ∧ g.moves[2 * k + 1]? = some (-m) ∧
      g.weights[2 * k]? = some w ∧ g.weights[2 * k + 1]? = some w

theorem Sound.pairsOpposed {g : Goal ℝ} (h : g.Sound) (hkind : g.kind.OnPairs)
    (hnodes : g.nodes.length = g.nodeCount) (pool : Pool ℝ) : (g.compute pool).PairsOpposed := by
  have hpositions : (g.positions pool).length = g.nodeCount := (List.length_map ..).trans hnodes
  have hlength := Aim.length_respond h.fits hpositions
  obtain ⟨corrections, hcorrections⟩ := Aim.respond_onPairs h.fits hkind (g.positions pool)
  rw [h.compute_eq hnodes, hcorrections]
  intro k hk
  have hcount : corrections.length * 2 = g.nodeCount := by
    rw [← hlength, hcorrections]
    simp [List.length_flatMap, List.map_const']
  have hk : k < corrections.length := by
    have hk : 2 * k + 1 < g.nodeCount := hk
    omega
  exact ⟨_, _, Response.getElem?_flatMap_split g.weight (List.getElem?_eq_getElem hk)⟩

end Goal

theorem Aim.sum_moves_respond {aim : Aim ℝ} (hkind : aim.kind.Balanced) {n : Nat}
    (hfits : aim.Fits n) (hshape : ∀ shape, aim.fixture = .shape shape → shape.IsCentered)
    {ps : List (Vec3 ℝ)} (hps : ps.length = n) : (aim.respond n ps).moves.sum = 0 := by
  cases aim with
  | length _ | clampLength _ _ | equalLengths | parallelLines | direction _ =>
    obtain ⟨corrections, hcorrections⟩ := respond_onPairs hfits hkind ps
    rw [hcorrections, Response.sum_moves_flatMap_split]
  | colinear => exact Projection.sum_moves_ontoLineFit n ps
  | coplanar => exact Projection.sum_moves_ontoPlaneFit n ps
  | coincident => exact Projection.sum_moves_ontoCentroid ps
  | shapeMatching shape allowScaling =>
    exact TargetShape.sum_moves_respond (hshape shape rfl).sum_points (hfits.trans hps.symm) _
  | _ => cases hkind

/-- Only nodes that the response touches are asked to move. -/
theorem Response.weight_eq_of_move_ne_zero {α : Type} [Scalar α] {r : Response α} {weight w : α}
    {m : Vec3 α} {i : Nat} (hm : r.moves[i]? = some m) (hw : (r.weights weight)[i]? = some w)
    (hne : m ≠ 0) : w = weight := by
  rw [moves, List.getElem?_map, Option.map_eq_some_iff] at hm
  rw [weights, List.getElem?_map, Option.map_eq_some_iff] at hw
  obtain ⟨move, hmove, rfl⟩ := hm
  obtain ⟨move', hmove', rfl⟩ := hw
  cases hmove.symm.trans hmove'
  cases move with
  | none => exact absurd rfl hne
  | some _ => rfl

/-- Attached anywhere and whatever it responded before, a goal of a balanced kind asks for moves that
sum up to nothing, with its own weight wherever it asks for one. So all moves together leave the
centroid of its slots where it is. A goal for pairs does so pair by pair. -/
theorem Goal.Built.keeps_centroid {g : Goal ℝ} (hg : g.Built) (hkind : g.kind.Balanced)
    (pool : Pool ℝ) {nodes : List Nat} (hnodes : nodes.length = g.nodeCount)
    {moves : List (Vec3 ℝ)} (hmoves : moves.length = g.nodeCount) {weights : List ℝ}
    (hweights : weights.length = g.nodeCount) :
    let after := ({ g with nodes, moves, weights } : Goal ℝ).compute pool
    after.moves.length = g.nodeCount ∧ after.weights.length = g.nodeCount ∧
    after.moves.sum = 0 ∧
    (∀ (i : Nat) m w, after.moves[i]? = some m → after.weights[i]? = some w → m ≠ 0 → w = g.weight) ∧
    Vec3.centroid ((pool.positions nodes).zipWith (· + ·) after.moves) =
      Vec3.centroid (pool.positions nodes) ∧
    (g.kind.OnPairs → after.PairsOpposed) := by
  intro after
  have hsound := hg.sound.placed nodes hmoves hweights
  have hpositions : (pool.positions nodes).length = g.nodeCount :=
    (List.length_map ..).trans hnodes
  have hafter : after = _ := hsound.compute_eq hnodes pool
  have hmoves_length : after.moves.length = g.nodeCount := (length_overwrite ..).trans hmoves
  have hsum : after.moves.sum = 0 := by
    rw [hafter]
    exact Aim.sum_moves_respond hkind hg.sound.fits (fun _ => hg.isCentered) hpositions
  refine ⟨hmoves_length, (length_overwrite ..).trans hweights, hsum, fun i m w hm hw hne => ?_,
    Vec3.centroid_zipWith_add (hpositions.trans hmoves_length.symm) hsum,
    fun hpairs => hsound.pairsOpposed hpairs hnodes pool⟩
  rw [hafter] at hm hw
  exact Response.weight_eq_of_move_ne_zero hm hw hne

/-- A shape matched at another size by nodes of which two coincide, and two segments of which one has
collapsed, with a node in both. -/
theorem Goal.Built.keeps_centroid_collapsed :
    let pool : Pool ℝ := #[.atRest 0, .atRest 0, .atRest Vec3.xAxis]
    let shape : Goal ℝ := ofAim
      (.shapeMatching (TargetShape.ofPoints [0, Vec3.xAxis, Vec3.zAxis]) true) [0, 0, Vec3.xAxis] 2
    let lines : Goal ℝ := ofAim .parallelLines [0, 0, Vec3.xAxis, 0] 1
    (shape.Built ∧ shape.kind.Balanced ∧ lines.Built ∧ lines.kind.Balanced ∧
      lines.kind.OnPairs) ∧
    (({ shape with nodes := [0, 1, 2] } : Goal ℝ).compute pool).moves.sum = 0 ∧
    (({ lines with nodes := [0, 1, 2, 0] } : Goal ℝ).compute pool).PairsOpposed := by
  intro pool shape lines
  have hweight : ∀ w : ℝ, 0 ≤ w → Usable w := fun _ => usable_real_iff.mpr
  have hmatching : shapeMatching [0, 0, Vec3.xAxis] [0, Vec3.xAxis, Vec3.zAxis] true 2 = .ok shape :=
    shapeMatching_eq_ok_iff.mpr ⟨Nat.le_succ 2, hweight 2 zero_le_two, rfl, rfl⟩
  have hparallel : parallelLines [0, 0, Vec3.xAxis, 0] 1 = .ok lines :=
    parallelLines_eq_ok_iff.mpr ⟨⟨List.cons_ne_nil _ _, rfl⟩, hweight 1 zero_le_one, rfl⟩
  have hshape : shape.Built := .made (.shapeMatching hmatching) (.of_shapeless rfl)
  have hlines : lines.Built := .made (.parallelLines hparallel) (.of_shapeless rfl)
  refine ⟨⟨hshape, trivial, hlines, trivial, trivial⟩, ?_, ?_⟩
  · have hnodes : [0, 1, 2].length = shape.nodeCount := rfl
    exact (hshape.keeps_centroid trivial pool hnodes hshape.sound.moves_length
      hshape.sound.weights_length).2.2.1
  · have hnodes : [0, 1, 2, 0].length = lines.nodeCount := rfl
    exact (hlines.keeps_centroid trivial pool hnodes hlines.sound.moves_length
      hlines.sound.weights_length).2.2.2.2.2 trivial

end Relaxation
