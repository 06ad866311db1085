import Mathlib.Algebra.BigOperators.Group.List.Basic
import Mathlib.Data.Prod.Basic
import Relaxation.Proofs.Goal.Momentum

/-!
# Closed meshes

In a closed mesh every directed edge is met by its reverse, in another face or in the same. The sum of
the area normals and the change of the volume under a translation are sums over directed edges of terms
that change their sign with the direction, so they vanish (`Face.Closed.sum_edges`), and each face's
force reaches each of its corners once. A pressure thus pushes no closed mesh as a whole
(`Face.Closed.feels_no_net_pressure`).
-/

namespace Relaxation

namespace Face

/-- The directed edges of a face, from each corner to the next. -/
def edges (f : Face) : List (Nat × Nat) := [(f.a, f.b), (f.b, f.c), (f.c, f.a)]

/-- Every directed edge occurs as often as its reverse. -/
def Closed (faces : List Face) : Prop :=
  ∀ e ∈ faces.flatMap edges, (faces.flatMap edges).count e = (faces.flatMap edges).count e.swap

instance (faces : List Face) : Decidable (Closed faces) :=
  inferInstanceAs (Decidable (∀ e ∈ faces.flatMap edges, _))

variable {faces : List Face}

theorem Closed.count_swap (h : Closed faces) (e : Nat × Nat) :
    (faces.flatMap edges).count e.swap = (faces.flatMap edges).count e := by
  by_cases he : e ∈ faces.flatMap edges
  · exact (h e he).symm
  · by_cases hswap : e.swap ∈ faces.flatMap edges
    · exact e.swap_swap ▸ h e.swap hswap
    · rw [List.count_eq_zero_of_not_mem he, List.count_eq_zero_of_not_mem hswap]

theorem Closed.perm_swap (h : Closed faces) :
    ((faces.flatMap edges).map Prod.swap).Perm (faces.flatMap edges) := by
  refine List.perm_iff_count.mpr fun e => ?_
  have hcount := List.count_map_of_injective (faces.flatMap edges) Prod.swap Prod.swap_injective e.swap
  rw [e.swap_swap] at hcount
  rw [hcount, h.count_swap]

/-- What changes its sign with the direction of an edge cancels out. -/
theorem Closed.sum_edges (h : Closed faces) {f : Nat × Nat → Vec3 ℝ} (hf : ∀ e, f e.swap = -f e) :
    ((faces.flatMap edges).map f).sum = 0 := by
  have hneg : ((faces.flatMap edges).map f).sum = -((faces.flatMap edges).map f).sum := by
    calc ((faces.flatMap edges).map f).sum
        = (((faces.flatMap edges).map Prod.swap).map f).sum := (h.perm_swap.map f).sum_eq.symm
      _ = (((faces.flatMap edges).map f).map fun v => -v).sum := by
        rw [List.map_map, List.map_map]
        exact congrArg List.sum (List.map_congr_left fun e _ => hf e)
      _ = -((faces.flatMap edges).map f).sum := (List.sum_neg _).symm
  have htwice : (2 : ℝ) • ((faces.flatMap edges).map f).sum = 0 := by
    rw [two_smul]
    exact add_eq_zero_iff_eq_neg.mpr hneg
  exact (smul_eq_zero_iff_right two_ne_zero).mp htwice

/-- A sum over the faces of what each makes of its three edges. -/
theorem sum_map_edges (f : Nat × Nat → Vec3 ℝ) (faces : List Face) :
    (faces.map fun x => f (x.a, x.b) + f (x.b, x.c) + f (x.c, x.a)).sum =
      ((faces.flatMap edges).map f).sum := by
  induction faces with
  | nil => rfl
  | cons x faces ih =>
    rw [List.map_cons, List.sum_cons, ih, List.flatMap_cons, List.map_append, List.sum_append]
    simp only [edges, List.map_cons, List.map_nil, List.sum_cons, List.sum_nil, add_zero, add_assoc]

end Face

namespace FaceForce

variable {faces : List Face}

/-! ## Area normals -/

/-- The normal of the triangle of an edge and the origin. -/
noncomputable def edgeNormal (ps : List (Vec3 ℝ)) (e : Nat × Nat) : Vec3 ℝ :=
  areaNormal 0 (vertexAt ps e.1) (vertexAt ps e.2)

/-- With the origin as its tip, a triangle makes a tetrahedron that is closed itself. -/
theorem faceNormal_eq (ps : List (Vec3 ℝ)) (f : Face) :
    faceNormal ps f =
      edgeNormal ps (f.a, f.b) + edgeNormal ps (f.b, f.c) + edgeNormal ps (f.c, f.a) := by
  simp only [faceNormal, edgeNormal, areaNormal, sub_zero]
  ext <;> simp only [Vec3.cross, Vec3.mul_x, Vec3.mul_y, Vec3.mul_z, Vec3.sub_x, Vec3.sub_y,
    Vec3.sub_z, Vec3.add_x, Vec3.add_y, Vec3.add_z] <;> ring

theorem sum_faceNormal (h : Face.Closed faces) (ps : List (Vec3 ℝ)) :
    (faces.map (faceNormal ps)).sum = 0 := by
  have hswap : ∀ e : Nat × Nat, edgeNormal ps e.swap = -edgeNormal ps e := by
    intro e
    simp only [edgeNormal, areaNormal, sub_zero, Prod.fst_swap, Prod.snd_swap]
    rw [Vec3.cross_swap, Vec3.mul_real, smul_neg]
    rfl
  rw [List.map_congr_left fun f _ => faceNormal_eq ps f, Face.sum_map_edges, h.sum_edges hswap]

/-! ## Volume -/

/-- A translation adds to the tetrahedron of a triangle and the origin by the area of the triangle. -/
theorem dot_cross_translate (a b c t : Vec3 ℝ) :
    (a + t).dot ((b + t).cross (c + t)) = a.dot (b.cross c) + 2 * t.dot (areaNormal a b c) := by
  rw [areaNormal, Scalar.ofScientific_real]
  simp only [Vec3.dot, Vec3.cross, Vec3.add_x, Vec3.add_y, Vec3.add_z, Vec3.sub_x, Vec3.sub_y,
    Vec3.sub_z, Vec3.mul_x, Vec3.mul_y, Vec3.mul_z]
  ring

theorem vertexAt_map {ps : List (Vec3 ℝ)} {i : Nat} (hi : i < ps.length) (t : Vec3 ℝ) :
    vertexAt (ps.map (· + t)) i = vertexAt ps i + t := by
  rw [vertexAt, vertexAt, List.getElem?_map, List.getElem?_eq_getElem hi]
  rfl

theorem volume_translate (h : Face.Closed faces) {ps : List (Vec3 ℝ)}
    (hfaces : ∀ f ∈ faces, f.Within ps.length) (t : Vec3 ℝ) :
    volume faces (ps.map (· + t)) = volume faces ps := by
  let along : Vec3 ℝ →+ ℝ := AddMonoidHom.mk' (fun n => 2 * t.dot n) fun n m => by
    rw [Vec3.dot_add, mul_add]
  have hface : ∀ f ∈ faces,
      (vertexAt (ps.map (· + t)) f.a).dot
        ((vertexAt (ps.map (· + t)) f.b).cross (vertexAt (ps.map (· + t)) f.c)) =
      (vertexAt ps f.a).dot ((vertexAt ps f.b).cross (vertexAt ps f.c)) +
        along (faceNormal ps f) := by
    intro f hf
    obtain ⟨ha, hb, hc⟩ : f.a < ps.length ∧ f.b < ps.length ∧ f.c < ps.length := by
      simpa [Face.Within, Face.corners] using hfaces f hf
    rw [vertexAt_map ha, vertexAt_map hb, vertexAt_map hc, dot_cross_translate]
    rfl
  have hnone : (faces.map fun f => along (faceNormal ps f)).sum = 0 := by
    calc (faces.map fun f => along (faceNormal ps f)).sum
        = along (faces.map (faceNormal ps)).sum := by rw [map_list_sum, List.map_map]; rfl
      _ = 0 := by rw [sum_faceNormal h, map_zero]
  unfold volume
  dsimp only
  rw [Scalar.sum_real, Scalar.sum_real, List.map_congr_left hface, List.sum_map_add, hnone, add_zero]

theorem enclosedVolume_translate (h : Face.Closed faces) (ps : List (Vec3 ℝ)) (t : Vec3 ℝ) :
    enclosedVolume faces (ps.map (· + t)) = enclosedVolume faces ps := by
  unfold enclosedVolume
  rw [List.length_map]
  cases hcheck : (requireFaces ps.length faces : Checked ℝ Unit) with
  | error f => rfl
  | ok u => rw [volume_translate h (requireFaces_eq_ok_iff.mp hcheck)]

/-! ## Forces -/

/-- What is sent to the corners is what they receive in all. -/
theorem sum_received {n : Nat} {shares : List (Nat × Vec3 ℝ)} (h : ∀ s ∈ shares, s.1 < n) :
    ((List.range n).map fun v => ((shares.filter (·.1 == v)).map Prod.snd).sum).sum =
      (shares.map Prod.snd).sum := by
  induction shares with
  | nil => simp
  | cons s shares ih =>
    obtain ⟨hs, h⟩ := List.forall_mem_cons.mp h
    have hcons : ∀ v, (((s :: shares).filter (·.1 == v)).map Prod.snd).sum =
        (if s.1 = v then s.2 else 0) + ((shares.filter (·.1 == v)).map Prod.snd).sum := by
      intro v
      rw [List.filter_cons]
      split
      next hv => rw [if_pos (beq_iff_eq.mp hv), List.map_cons, List.sum_cons]
      next hv => rw [if_neg (mt beq_iff_eq.mpr hv), zero_add]
    -- Only the corner of the first share takes it, and it is one of the places.
    have hone : ((List.range n).map fun v => if s.1 = v then s.2 else 0).sum = s.2 := by
      rw [List.sum_map_eq_nsmul_single s.1 _ fun v hv _ => if_neg hv.symm, if_pos rfl,
        List.count_eq_one_of_mem List.nodup_range (List.mem_range.mpr hs), one_nsmul]
    simp only [hcons]
    rw [List.sum_map_add, hone, ih h, List.map_cons, List.sum_cons]

/-- Each load goes to three corners, and a corner that a face names twice takes it twice. -/
theorem sum_shares (loads : List (Face × Vec3 ℝ)) :
    ((loads.flatMap fun (f, load) => f.corners.map (·, load)).map Prod.snd).sum =
      (3 : ℝ) • (loads.map Prod.snd).sum := by
  induction loads with
  | nil => simp
  | cons l loads ih =>
    have hthree : ((l.1.corners.map (·, l.2)).map Prod.snd).sum = (3 : ℝ) • l.2 := by
      change l.2 + (l.2 + (l.2 + 0)) = l.2 * (3 : ℝ)
      ext <;> simp only [Vec3.add_x, Vec3.add_y, Vec3.add_z, Vec3.zero_x, Vec3.zero_y, Vec3.zero_z,
        Vec3.mul_x, Vec3.mul_y, Vec3.mul_z] <;> ring
    rw [List.flatMap_cons, List.map_append, List.sum_append, ih, List.map_cons, List.sum_cons,
      smul_add, ← hthree]

theorem sum_moves_spread {n : Nat} {loads : List (Face × Vec3 ℝ)} (h : ∀ l ∈ loads, l.1.Within n) :
    (spread n loads).moves.sum = (3 : ℝ) • (loads.map Prod.snd).sum := by
  let shares := loads.flatMap fun (f, load) => f.corners.map (·, load)
  have hwithin : ∀ s ∈ shares, s.1 < n := by
    intro s hs
    obtain ⟨l, hl, hs⟩ := List.mem_flatMap.mp hs
    obtain ⟨v, hv, rfl⟩ := List.mem_map.mp hs
    exact h l hl v hv
  have hmoves : (spread n loads).moves =
      (List.range n).map fun v => ((shares.filter (·.1 == v)).map Prod.snd).sum := by
    rw [spread, Response.moves, List.map_map]
    refine List.map_congr_left fun v _ => ?_
    dsimp only [Function.comp]
    split
    next hnone => rw [List.isEmpty_iff.mp hnone]; rfl
    next => exact Vec3.sum_eq _
  rw [hmoves, sum_received hwithin, sum_shares]

theorem sum_moves_pressureResponse (h : Face.Closed faces) {n : Nat}
    (hfaces : ∀ f ∈ faces, f.Within n) (pressure : ℝ) (ps : List (Vec3 ℝ)) :
    (pressureResponse n pressure faces ps).moves.sum = 0 := by
  have hloads : (faces.map fun f => faceNormal ps f * pressure).sum = 0 := by
    calc (faces.map fun f => faceNormal ps f * pressure).sum
        = pressure • (faces.map (faceNormal ps)).sum := by rw [List.smul_sum, List.map_map]; rfl
      _ = 0 := by rw [sum_faceNormal h, smul_zero]
  rw [pressureResponse, respond, sum_moves_spread (List.forall_mem_map.mpr hfaces), List.map_map]
  exact (congrArg _ hloads).trans (smul_zero _)

theorem sum_moves_gasResponse (h : Face.Closed faces) {n : Nat}
    (hfaces : ∀ f ∈ faces, f.Within n) (amount : ℝ) (ps : List (Vec3 ℝ)) :
    (gasResponse n amount faces ps).moves.sum = 0 := by
  unfold gasResponse
  dsimp only
  split
  · exact Response.sum_moves_idle n
  · exact sum_moves_pressureResponse h hfaces _ ps

end FaceForce

/-- A closed mesh as a whole feels nothing of the pressure in it, wherever its vertices are: its area
normals sum up to nothing, and so do the moves of its goal, attached anywhere and whatever it responded
before. The volume that it encloses does not depend on where it stands. -/
theorem Face.Closed.feels_no_net_pressure {faces : List Face} (h : Closed faces) :
    (∀ ps : List (Vec3 ℝ), (faces.map (FaceForce.faceNormal ps)).sum = 0) ∧
    (∀ {g : Goal ℝ}, g.Built →
      ((∃ pressure, g.aim = .constantPressure faces pressure) ∨
        ∃ amount, g.aim = .constantVolumePressure faces amount) →
      ∀ (pool : Pool ℝ) {nodes : List Nat} {moves : List (Vec3 ℝ)} {weights : List ℝ},
        nodes.length = g.nodeCount → moves.length = g.nodeCount → weights.length = g.nodeCount →
        (({ g with nodes, moves, weights } : Goal ℝ).compute pool).moves.sum = 0) ∧
    ∀ (ps : List (Vec3 ℝ)) (t : Vec3 ℝ),
      FaceForce.enclosedVolume faces (ps.map (· + t)) = FaceForce.enclosedVolume faces ps := by
  refine ⟨FaceForce.sum_faceNormal h, ?_, FaceForce.enclosedVolume_translate h⟩
  intro g hg haim pool nodes moves weights hnodes hmoves hweights
  have hfits := hg.sound.fits
  rw [(hg.sound.placed nodes hmoves hweights).compute_eq hnodes pool]
  dsimp only
  rcases haim with ⟨pressure, haim⟩ | ⟨amount, haim⟩
  · rw [haim] at hfits ⊢
    exact FaceForce.sum_moves_pressureResponse h hfits pressure _
  · rw [haim] at hfits ⊢
    exact FaceForce.sum_moves_gasResponse h hfits amount _

/-- A tetrahedron with gas in it. -/
theorem Face.Closed.feels_no_net_pressure_tetrahedron :
    let faces : List Face := [⟨0, 2, 1⟩, ⟨0, 1, 3⟩, ⟨1, 2, 3⟩, ⟨2, 0, 3⟩]
    let corners : List (Vec3 ℝ) := [0, ⟨1, 0, 0⟩, ⟨0, 1, 0⟩, ⟨0, 0, 1⟩]
    let g : Goal ℝ := Goal.ofAim (.constantVolumePressure faces 1) corners 1
    let pool : Pool ℝ := (corners.map Node.atRest).toArray
    (Closed faces ∧ g.Built) ∧
      (faces.map (FaceForce.faceNormal corners)).sum = 0 ∧
      (({ g with nodes := [0, 1, 2, 3] } : Goal ℝ).compute pool).moves.sum = 0 ∧
      FaceForce.enclosedVolume faces (corners.map (· + Vec3.xAxis)) =
        FaceForce.enclosedVolume faces corners := by
  intro faces corners g pool
  have hclosed : Closed faces := by decide
  have hwithin : ∀ f ∈ faces, f.Within 4 := by simp [faces, Face.Within, Face.corners]
  have hmade : Goal.constantVolumePressure corners faces 1 1 = .ok g :=
    Goal.constantVolumePressure_eq_ok_iff.mpr
      ⟨⟨(by decide : 3 ≤ 4), List.cons_ne_nil _ _, hwithin⟩, rfl, usable_real_iff.mpr zero_le_one, rfl⟩
  have hbuilt : g.Built := .made (.constantVolumePressure hmade) (.of_shapeless rfl)
  obtain ⟨hnormals, hmoves, hvolume⟩ := hclosed.feels_no_net_pressure
  exact ⟨⟨hclosed, hbuilt⟩, hnormals corners,
    hmoves hbuilt (.inr ⟨1, rfl⟩) pool rfl hbuilt.sound.moves_length hbuilt.sound.weights_length,
    hvolume corners Vec3.xAxis⟩

end Relaxation
