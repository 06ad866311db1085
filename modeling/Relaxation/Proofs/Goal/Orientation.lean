import Relaxation.Proofs.Goal.ClosedMesh

/-!
# The orientation of a mesh

Seen from its other side a face has the opposite area normal and adds the opposite to the volume, and it
pushes the same corners. So a pressure is reversed with the faces (`pressureResponse_flip`), the pressure
of a gas is not, for the volume that it divides by is reversed with them (`gasResponse_flip`), and a wind
loads a face alike from either side (`windResponse_turned`).
-/

namespace Relaxation

/-! ## Faces -/

namespace Face

/-- The same faces, some of them seen from their other side. -/
def Turned (faces faces' : List Face) : Prop :=
  List.Forall₂ (fun f f' => f' = f ∨ f' = f.flip) faces faces'

variable {faces faces' : List Face}

theorem turned_map_flip (faces : List Face) : Turned faces (faces.map flip) :=
  List.forall₂_map_right_iff.mpr (List.forall₂_same.mpr fun _ _ => .inr rfl)

theorem corners_flip_perm (f : Face) : f.flip.corners.Perm f.corners :=
  .cons f.a (.swap f.b f.c [])

theorem within_flip_iff {count : Nat} {f : Face} : f.flip.Within count ↔ f.Within count :=
  forall_congr' fun _ => imp_congr_left f.corners_flip_perm.mem_iff

/-- Turning a face keeps its corners. -/
theorem Turned.within_iff (h : Turned faces faces') {count : Nat} :
    (∀ f ∈ faces', f.Within count) ↔ ∀ f ∈ faces, f.Within count := by
  induction h with
  | nil => rfl
  | cons hf _ ih =>
    rw [List.forall_mem_cons, List.forall_mem_cons, ih]
    refine and_congr_left' ?_
    rcases hf with rfl | rfl
    · rfl
    · exact within_flip_iff

theorem Turned.ne_nil (h : Turned faces faces') (hne : faces ≠ []) : faces' ≠ [] := by
  rintro rfl
  exact hne (List.forall₂_nil_right_iff.mp h)

end Face

/-! ## Volume and loads -/

namespace FaceForce

variable {faces faces' : List Face}

theorem faceNormal_flip (ps : List (Vec3 ℝ)) (f : Face) :
    faceNormal ps f.flip = -faceNormal ps f := by
  rw [faceNormal, faceNormal, areaNormal, areaNormal, Face.flip, Vec3.cross_swap, Vec3.neg_mul_real]

/-- Each face contributes a determinant, of which two columns are exchanged. -/
theorem volume_flip (faces : List Face) (ps : List (Vec3 ℝ)) :
    volume (faces.map Face.flip) ps = -volume faces ps := by
  have hface : ∀ f : Face, (vertexAt ps f.a).dot ((vertexAt ps f.c).cross (vertexAt ps f.b)) =
      -(vertexAt ps f.a).dot ((vertexAt ps f.b).cross (vertexAt ps f.c)) := fun f => by
    rw [Vec3.cross_swap, Vec3.dot_neg]
  have hsum : (faces.map fun f =>
        (vertexAt ps f.a).dot ((vertexAt ps f.c).cross (vertexAt ps f.b))).sum =
      -(faces.map fun f =>
        (vertexAt ps f.a).dot ((vertexAt ps f.b).cross (vertexAt ps f.c))).sum := by
    rw [List.sum_neg, List.map_map]
    exact congrArg List.sum (List.map_congr_left fun f _ => hface f)
  unfold volume
  dsimp only
  rw [Scalar.sum_real, Scalar.sum_real, List.map_map, ← neg_div]
  exact congrArg (· / _) hsum

theorem enclosedVolume_eq_ok_iff {ps : List (Vec3 ℝ)} {v : ℝ} :
    enclosedVolume faces ps = .ok v ↔
      (∀ f ∈ faces, f.Within ps.length) ∧ volume faces ps = v := by
  rw [enclosedVolume, Checked.check_bind_eq_ok, requireFaces_eq_ok_iff, Checked.pure_eq_ok]

theorem enclosedVolume_flip (faces : List Face) (ps : List (Vec3 ℝ)) (v : ℝ) :
    enclosedVolume (faces.map Face.flip) ps = .ok (-v) ↔ enclosedVolume faces ps = .ok v := by
  rw [enclosedVolume_eq_ok_iff, enclosedVolume_eq_ok_iff, volume_flip, neg_inj,
    (Face.turned_map_flip faces).within_iff]

/-- What is sent to the corners, one share for each corner of a loaded face. -/
def shares (loads : List (Face × Vec3 ℝ)) : List (Nat × Vec3 ℝ) :=
  loads.flatMap fun l => l.1.corners.map (·, l.2)

/-- The sum of the shares of a corner; nothing when it has none. -/
noncomputable def received (shares : List (Nat × Vec3 ℝ)) (v : Nat) : Option (Vec3 ℝ) :=
  if (shares.filter (·.1 == v)).isEmpty then none
  else some ((shares.filter (·.1 == v)).map Prod.snd).sum

/-- The answer to the loads of the faces, by vertex. -/
theorem spread_eq (n : Nat) (loads : List (Face × Vec3 ℝ)) :
    spread n loads = (List.range n).map (received (shares loads)) := by
  refine List.map_congr_left fun v _ => ?_
  dsimp only
  rw [Vec3.sum_eq]
  rfl

/-- The order in which a face names its corners does not matter to the load that they share. -/
theorem spread_congr {n : Nat} {loads loads' : List (Face × Vec3 ℝ)}
    (h : List.Forall₂ (fun l l' => l'.1.corners.Perm l.1.corners ∧ l'.2 = l.2) loads loads') :
    spread n loads' = spread n loads := by
  have hshares : (shares loads').Perm (shares loads) := by
    induction h with
    | nil => exact .nil
    | cons hload _ ih =>
      obtain ⟨hcorners, heq⟩ := hload
      rw [shares, shares, List.flatMap_cons, List.flatMap_cons, heq]
      exact (hcorners.map _).append ih
  rw [spread_eq, spread_eq]
  refine List.map_congr_left fun v _ => ?_
  have hown := hshares.filter (·.1 == v)
  rw [received, received, hown.isEmpty_eq, (hown.map Prod.snd).sum_eq]

/-- Opposite loads move every corner in the opposite direction. -/
theorem spread_neg (n : Nat) (loads : List (Face × Vec3 ℝ)) :
    spread n (loads.map fun l => (l.1, -l.2)) = (spread n loads).map (Option.map (-·)) := by
  have hshares : shares (loads.map fun l => (l.1, -l.2)) =
      (shares loads).map fun s => (s.1, -s.2) := by
    simp only [shares, List.flatMap_map, List.map_flatMap, List.map_map]
    rfl
  rw [spread_eq, spread_eq, List.map_map]
  refine List.map_congr_left fun v _ => ?_
  have hown : ((shares loads).map fun s => (s.1, -s.2)).filter (·.1 == v) =
      ((shares loads).filter (·.1 == v)).map fun s => (s.1, -s.2) := List.filter_map
  rw [Function.comp_apply, received, received, hshares, hown, List.isEmpty_map]
  split
  · rfl
  · rw [Option.map_some, List.sum_neg, List.map_map, List.map_map]
    rfl

/-- A force that does not see the sense of the normal does not see which faces are turned. -/
theorem respond_turned (h : Face.Turned faces faces') {force : Vec3 ℝ → Vec3 ℝ}
    (hforce : ∀ v, force (-v) = force v) (n : Nat) (ps : List (Vec3 ℝ)) :
    respond n force faces' ps = respond n force faces ps := by
  refine spread_congr ?_
  rw [List.forall₂_map_left_iff, List.forall₂_map_right_iff]
  refine h.imp fun f f' hf => ?_
  rcases hf with rfl | rfl
  · exact ⟨.rfl, rfl⟩
  · exact ⟨f.corners_flip_perm, by rw [faceNormal_flip, hforce]⟩

theorem pressureResponse_flip (n : Nat) (pressure : ℝ) (faces : List Face) (ps : List (Vec3 ℝ)) :
    pressureResponse n pressure (faces.map Face.flip) ps =
      pressureResponse n (-pressure) faces ps := by
  refine spread_congr ?_
  rw [List.map_map, List.forall₂_map_left_iff, List.forall₂_map_right_iff, List.forall₂_same]
  refine fun f _ => ⟨f.corners_flip_perm, ?_⟩
  dsimp only [Function.comp_apply]
  rw [faceNormal_flip, Vec3.mul_real, Vec3.mul_real, smul_neg, neg_smul]

/-- Volume and area normals both change their sign, and the pressure is a quotient of the two. -/
theorem gasResponse_flip (n : Nat) (amount : ℝ) (faces : List Face) (ps : List (Vec3 ℝ)) :
    gasResponse n amount (faces.map Face.flip) ps = gasResponse n amount faces ps := by
  unfold gasResponse
  dsimp only
  rw [volume_flip, pressureResponse_flip, div_neg, neg_neg, Scalar.abs_real, Scalar.abs_real,
    abs_neg]

/-- The load of the wind does not depend on the sense of the normal. -/
theorem windLoad_neg (wind normal : Vec3 ℝ) : windLoad wind (-normal) = windLoad wind normal := by
  unfold windLoad
  dsimp only
  rw [Vec3.norm_neg, Vec3.dot_comm (-normal), Vec3.dot_neg, Vec3.dot_comm wind, neg_div,
    Vec3.mul_real, Vec3.mul_real, neg_smul, smul_neg, neg_neg]

theorem windResponse_turned (h : Face.Turned faces faces') (n : Nat) (wind : Vec3 ℝ)
    (ps : List (Vec3 ℝ)) : windResponse n wind faces' ps = windResponse n wind faces ps :=
  respond_turned h (windLoad_neg wind) n ps

theorem pressureResponse_neg (n : Nat) (pressure : ℝ) (faces : List Face) (ps : List (Vec3 ℝ)) :
    pressureResponse n (-pressure) faces ps =
      (pressureResponse n pressure faces ps).map (Option.map (-·)) := by
  rw [pressureResponse, pressureResponse, respond, respond, ← spread_neg, List.map_map]
  refine congrArg (spread n) (List.map_congr_left fun f _ => ?_)
  dsimp only [Function.comp_apply]
  rw [Vec3.mul_real, Vec3.mul_real, neg_smul]

end FaceForce

/-! ## Goals -/

namespace Response

theorem moves_map {f : Vec3 ℝ → Vec3 ℝ} (hf : f 0 = 0) (r : Response ℝ) :
    moves (r.map (Option.map f)) = r.moves.map f := by
  rw [moves, moves, List.map_map, List.map_map]
  refine List.map_congr_left fun move _ => ?_
  cases move with
  | none => exact hf.symm
  | some v => rfl

theorem weights_map (f : Vec3 ℝ → Vec3 ℝ) (weight : ℝ) (r : Response ℝ) :
    weights weight (r.map (Option.map f)) = r.weights weight := by
  rw [weights, weights, List.map_map]
  refine List.map_congr_left fun move _ => ?_
  rw [Function.comp_apply, Option.isSome_map]

end Response

namespace Goal

/-- Attached to the same nodes, whatever each of them responded before, `g'` asks for the images under
`f` of the moves that `g` asks for, with the same weights. -/
def Mirrors (f : Vec3 ℝ → Vec3 ℝ) (g g' : Goal ℝ) : Prop :=
  ∀ (pool : Pool ℝ) {nodes : List Nat} {moves moves' : List (Vec3 ℝ)} {weights weights' : List ℝ},
    nodes.length = g.nodeCount →
    moves.length = g.nodeCount → weights.length = g.nodeCount →
    moves'.length = g.nodeCount → weights'.length = g.nodeCount →
    let before := ({ g with nodes, moves, weights } : Goal ℝ).compute pool
    let after := ({ g' with nodes, moves := moves', weights := weights' } : Goal ℝ).compute pool
    after.moves = before.moves.map f ∧ after.weights = before.weights

theorem mirrors_ofAim {aim aim' : Aim ℝ} {vertices : List (Vec3 ℝ)} {weight : ℝ}
    (hg : (ofAim aim vertices weight).Sound) (hg' : (ofAim aim' vertices weight).Sound)
    {f : Vec3 ℝ → Vec3 ℝ} (hf : f 0 = 0)
    (h : ∀ n ps, aim'.respond n ps = (aim.respond n ps).map (Option.map f)) :
    (ofAim aim vertices weight).Mirrors f (ofAim aim' vertices weight) := by
  intro pool nodes moves moves' weights weights' hnodes hmoves hweights hmoves' hweights'
  rw [(hg.placed nodes hmoves hweights).compute_eq hnodes,
    (hg'.placed nodes hmoves' hweights').compute_eq hnodes]
  dsimp only [ofAim, nodeCount, positions]
  rw [h]
  exact ⟨Response.moves_map hf _, Response.weights_map f weight _⟩

theorem mirrors_ofAim_id {aim aim' : Aim ℝ} {vertices : List (Vec3 ℝ)} {weight : ℝ}
    (hg : (ofAim aim vertices weight).Sound) (hg' : (ofAim aim' vertices weight).Sound)
    (h : ∀ n ps, aim'.respond n ps = aim.respond n ps) :
    (ofAim aim vertices weight).Mirrors id (ofAim aim' vertices weight) :=
  mirrors_ofAim hg hg' rfl fun n ps => by rw [h, Option.map_id, List.map_id]

end Goal

/-- Seen from the other side of all its faces, a mesh encloses the opposite volume, a gas in it pushes as
before, and a pressure pushes as hard the other way. The wind does not tell the sides of a single face
apart. In each case the turned mesh is accepted like the mesh itself. -/
theorem Face.forces_under_orientation (faces : List Face) :
    (∀ (ps : List (Vec3 ℝ)) (v : ℝ),
      FaceForce.enclosedVolume (faces.map flip) ps = .ok (-v) ↔
        FaceForce.enclosedVolume faces ps = .ok v) ∧
    (∀ {vertices : List (Vec3 ℝ)} {amount weight : ℝ} {g : Goal ℝ},
      Goal.constantVolumePressure vertices faces amount weight = .ok g →
      ∃ g', Goal.constantVolumePressure vertices (faces.map flip) amount weight = .ok g' ∧
        g.Mirrors id g') ∧
    (∀ {vertices : List (Vec3 ℝ)} {pressure weight : ℝ} {g : Goal ℝ},
      Goal.constantPressure vertices faces pressure weight = .ok g →
      ∃ g', Goal.constantPressure vertices (faces.map flip) pressure weight = .ok g' ∧
        g.Mirrors (-·) g') ∧
    (∀ {faces' : List Face}, Turned faces faces' →
      ∀ {vertices : List (Vec3 ℝ)} {wind : Vec3 ℝ} {weight : ℝ} {g : Goal ℝ},
      Goal.directionalWind vertices faces wind weight = .ok g →
      ∃ g', Goal.directionalWind vertices faces' wind weight = .ok g' ∧ g.Mirrors id g') := by
  have hturned := turned_map_flip faces
  refine ⟨FaceForce.enclosedVolume_flip faces, ?gas, ?pressure, ?wind⟩
  case gas =>
    intro vertices amount weight g hg
    obtain ⟨⟨hcount, hne, hwithin⟩, hfinite, hw, rfl⟩ := Goal.constantVolumePressure_eq_ok_iff.mp hg
    have hg' := Goal.constantVolumePressure_eq_ok_iff.mpr
      ⟨⟨hcount, hturned.ne_nil hne, hturned.within_iff.mpr hwithin⟩, hfinite, hw, rfl⟩
    have hsound := (Goal.Made.constantVolumePressure hg).sound (.of_shapeless rfl)
    have hsound' := (Goal.Made.constantVolumePressure hg').sound (.of_shapeless rfl)
    exact ⟨_, hg', Goal.mirrors_ofAim_id hsound hsound' fun n =>
      FaceForce.gasResponse_flip n amount faces⟩
  case pressure =>
    intro vertices pressure weight g hg
    obtain ⟨⟨hcount, hne, hwithin⟩, hfinite, hw, rfl⟩ := Goal.constantPressure_eq_ok_iff.mp hg
    have hg' := Goal.constantPressure_eq_ok_iff.mpr
      ⟨⟨hcount, hturned.ne_nil hne, hturned.within_iff.mpr hwithin⟩, hfinite, hw, rfl⟩
    have hsound := (Goal.Made.constantPressure hg).sound (.of_shapeless rfl)
    have hsound' := (Goal.Made.constantPressure hg').sound (.of_shapeless rfl)
    refine ⟨_, hg', Goal.mirrors_ofAim hsound hsound' neg_zero fun n ps => ?_⟩
    exact (FaceForce.pressureResponse_flip n pressure faces ps).trans
      (FaceForce.pressureResponse_neg n pressure faces ps)
  case wind =>
    intro faces' hturned vertices wind weight g hg
    obtain ⟨⟨hcount, hne, hwithin⟩, hfinite, hw, rfl⟩ := Goal.directionalWind_eq_ok_iff.mp hg
    have hg' := Goal.directionalWind_eq_ok_iff.mpr
      ⟨⟨hcount, hturned.ne_nil hne, hturned.within_iff.mpr hwithin⟩, hfinite, hw, rfl⟩
    have hsound := (Goal.Made.directionalWind hg).sound (.of_shapeless rfl)
    have hsound' := (Goal.Made.directionalWind hg').sound (.of_shapeless rfl)
    exact ⟨_, hg', Goal.mirrors_ofAim_id hsound hsound' fun n =>
      FaceForce.windResponse_turned hturned n wind⟩

/-- A tetrahedron, of which the wind sees one face from the other side. -/
theorem Face.forces_under_orientation_tetrahedron :
    let faces : List Face := [⟨0, 2, 1⟩, ⟨0, 1, 3⟩, ⟨1, 2, 3⟩, ⟨2, 0, 3⟩]
    let faces' : List Face := [⟨0, 1, 2⟩, ⟨0, 1, 3⟩, ⟨1, 2, 3⟩, ⟨2, 0, 3⟩]
    let corners : List (Vec3 ℝ) := [0, ⟨1, 0, 0⟩, ⟨0, 1, 0⟩, ⟨0, 0, 1⟩]
    let gas : Goal ℝ := Goal.ofAim (.constantVolumePressure faces 2) corners 1
    let pressed : Goal ℝ := Goal.ofAim (.constantPressure faces 3) corners 1
    let blown : Goal ℝ := Goal.ofAim (.directionalWind faces Vec3.zAxis) corners 1
    (FaceForce.enclosedVolume faces corners = .ok (1 / 6) ∧
      Goal.constantVolumePressure corners faces 2 1 = .ok gas ∧
      Goal.constantPressure corners faces 3 1 = .ok pressed ∧ Turned faces faces' ∧
      Goal.directionalWind corners faces Vec3.zAxis 1 = .ok blown) ∧
    FaceForce.enclosedVolume (faces.map flip) corners = .ok (-(1 / 6)) ∧
    (∃ g', Goal.constantVolumePressure corners (faces.map flip) 2 1 = .ok g' ∧ gas.Mirrors id g') ∧
    (∃ g', Goal.constantPressure corners (faces.map flip) 3 1 = .ok g' ∧ pressed.Mirrors (-·) g') ∧
    ∃ g', Goal.directionalWind corners faces' Vec3.zAxis 1 = .ok g' ∧ blown.Mirrors id g' := by
  intro faces faces' corners gas pressed blown
  have hmesh : 3 ≤ corners.length ∧ faces ≠ [] ∧ ∀ f ∈ faces, f.Within corners.length := by
    simp [faces, corners, Face.Within, Face.corners]
  have hone : Usable (1 : ℝ) := usable_real_iff.mpr zero_le_one
  have hvolume : FaceForce.enclosedVolume faces corners = .ok (1 / 6) := by
    refine FaceForce.enclosedVolume_eq_ok_iff.mpr ⟨hmesh.2.2, ?_⟩
    norm_num [FaceForce.volume, faces, corners, vertexAt, Vec3.dot, Vec3.cross]
  have hgas : Goal.constantVolumePressure corners faces 2 1 = .ok gas :=
    Goal.constantVolumePressure_eq_ok_iff.mpr ⟨hmesh, rfl, hone, rfl⟩
  have hpressed : Goal.constantPressure corners faces 3 1 = .ok pressed :=
    Goal.constantPressure_eq_ok_iff.mpr ⟨hmesh, rfl, hone, rfl⟩
  have hblown : Goal.directionalWind corners faces Vec3.zAxis 1 = .ok blown :=
    Goal.directionalWind_eq_ok_iff.mpr ⟨hmesh, rfl, hone, rfl⟩
  have hturned : Turned faces faces' :=
    .cons (.inr rfl) (.cons (.inl rfl) (.cons (.inl rfl) (.cons (.inl rfl) .nil)))
  obtain ⟨hreversed, hkept, hopposite, hwind⟩ := forces_under_orientation faces
  exact ⟨⟨hvolume, hgas, hpressed, hturned, hblown⟩, (hreversed corners _).mpr hvolume, hkept hgas,
    hopposite hpressed, hwind hturned hblown⟩

end Relaxation
