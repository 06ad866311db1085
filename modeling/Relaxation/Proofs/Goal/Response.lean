import Relaxation.Proofs.Goal.Built

/-!
# Responses cover every node

A goal whose aim fits its nodes answers with exactly one entry for each of them
(`Aim.length_respond`). So a response leaves no slot of the buffers as it was, and the weights
after it are the goal's own weight or zero (`Response.eq_or_eq_zero_of_mem_weights`). A goal that
averages corrections moves each node by their mean (`Goal.Sound.compute_averaged`).
-/

namespace Relaxation

variable {α : Type}

/-! ## Skeletons -/

theorem length_pairs {β : Type} (bs : List β) : (pairs bs).length = bs.length / 2 := by
  fun_induction pairs bs with
  | case1 a b rest ih =>
    simp only [List.length_cons, ih]
    omega
  | case2 bs h =>
    match bs with
    | [] | [_] => simp
    | a :: b :: rest => exact (h a b rest rfl).elim

/-- The pair `k` stands in the places `2 * k` and `2 * k + 1`. -/
theorem getElem?_pairs_eq_some_iff {β : Type} {bs : List β} {k : Nat} {a b : β} :
    (pairs bs)[k]? = some (a, b) ↔ bs[2 * k]? = some a ∧ bs[2 * k + 1]? = some b := by
  fun_induction pairs bs generalizing k with
  | case1 a' b' rest ih =>
    cases k with
    | zero => simp
    | succ k => exact ih
  | case2 bs h =>
    match bs with
    | [] | [_] => simp
    | a' :: b' :: rest => exact (h a' b' rest rfl).elim

/-- The polygons have the sizes by which they are cut. -/
theorem map_length_cut {β : Type} {sizes : List Nat} {bs : List β} (h : sizes.sum ≤ bs.length) :
    (Polygon.cut sizes bs).map List.length = sizes := by
  induction sizes generalizing bs with
  | nil => rfl
  | cons n sizes ih =>
    rw [List.sum_cons] at h
    have hdrop : sizes.sum ≤ (bs.drop n).length := by rw [List.length_drop]; omega
    rw [Polygon.cut, List.map_cons, ih hdrop, List.length_take, Nat.min_eq_left (by omega)]

variable [Scalar α]

@[simp] theorem length_mutualCorrections {β : Type} (push : β → β → Option (Vec3 α))
    (items : List β) : (mutualCorrections push items).length = items.length := by
  simp [mutualCorrections]

namespace Response

omit [Scalar α] in
@[simp] theorem length_idle (n : Nat) : (idle n : Response α).length = n := List.length_replicate

@[simp] theorem length_project (target : Vec3 α → Vec3 α) (ps : List (Vec3 α)) :
    (project target ps).length = ps.length := List.length_map ..

@[simp] theorem length_split (correction : Option (Vec3 α)) :
    (split correction).length = 2 := by
  cases correction <;> rfl

@[simp] theorem length_moves (r : Response α) : r.moves.length = r.length := List.length_map ..

@[simp] theorem length_weights (weight : α) (r : Response α) :
    (r.weights weight).length = r.length := List.length_map ..

/-- A slot that is left alone has weight zero. -/
theorem eq_or_eq_zero_of_mem_weights {r : Response α} {weight w : α} (h : w ∈ r.weights weight) :
    w = 0 ∨ w = weight := by
  obtain ⟨move, _, rfl⟩ := List.mem_map.mp h
  by_cases hmove : move.isSome
  · exact .inr (if_pos hmove)
  · exact .inl (if_neg hmove)

end Response

/-! ## Each kind of goal -/

theorem Pairwise.length_respond (rule : Vec3 α → Option (Vec3 α)) {ps : List (Vec3 α)}
    (h : ps.length % 2 = 0) : (Pairwise.respond rule ps).length = ps.length := by
  have hsum : (Pairwise.respond rule ps).length = (Pairwise.deltas ps).length * 2 := by
    simp [Pairwise.respond, List.length_flatMap, List.map_const']
  rw [hsum, Pairwise.deltas, List.length_map, length_pairs]
  omega

theorem Pairwise.length_parallelResponse {n : Nat} {ps : List (Vec3 α)} (hn : n % 2 = 0)
    (h : ps.length = n) : (Pairwise.parallelResponse n ps).length = n := by
  unfold Pairwise.parallelResponse
  split
  · rw [Pairwise.length_respond _ (h ▸ hn), h]
  · exact Response.length_idle n

theorem AngleAtVertex.length_respond (size : α) (ps : List (Vec3 α)) :
    (AngleAtVertex.respond size ps).length = ps.length := by
  unfold AngleAtVertex.respond
  split
  · dsimp only
    split <;> rfl
  · exact Response.length_idle _

theorem Projection.length_ontoFit {β : Type} (closestPoint : β → Vec3 α → Vec3 α)
    (fit : Option β) {n : Nat} {ps : List (Vec3 α)} (h : ps.length = n) :
    (Projection.ontoFit closestPoint fit n ps).length = n := by
  unfold Projection.ontoFit
  split
  · rw [Response.length_project, h]
  · exact Response.length_idle n

/-- There is an answer for every vertex of every polygon. -/
theorem Polygon.length_separate (polygons : List (List (Vec2 α))) :
    (Polygon.separate polygons).length = (polygons.map List.length).sum := by
  have hlen : polygons.length ≤ (mutualCorrections Polygon.pushApart polygons).length := by simp
  calc (Polygon.separate polygons).length
      = ((polygons.zip (mutualCorrections Polygon.pushApart polygons)).map
          (List.length ∘ Prod.fst)).sum := by
        simp [Polygon.separate, List.length_flatMap, Function.comp_def]
    _ = (polygons.map List.length).sum := by rw [← List.map_map, List.map_fst_zip hlen]

theorem Polygon.length_collisionResponse {sizes : List Nat} {ps : List (Vec3 α)}
    (h : sizes.sum = ps.length) : (Polygon.collisionResponse sizes ps).length = ps.length := by
  rw [Polygon.collisionResponse, Polygon.length_separate, map_length_cut (by simp [h]), h]

theorem FaceForce.length_respond (n : Nat) (force : Vec3 α → Vec3 α) (faces : List Face)
    (ps : List (Vec3 α)) : (FaceForce.respond n force faces ps).length = n := by
  simp [FaceForce.respond, FaceForce.spread]

theorem FaceForce.length_gasResponse (n : Nat) (amount : α) (faces : List Face)
    (ps : List (Vec3 α)) : (FaceForce.gasResponse n amount faces ps).length = n := by
  unfold FaceForce.gasResponse
  dsimp only
  split
  · exact Response.length_idle n
  · exact FaceForce.length_respond ..

/-- An aim answers every slot, kind by kind. -/
theorem Aim.length_respond {n : Nat} {aim : Aim α} {ps : List (Vec3 α)} (hfits : aim.Fits n)
    (h : ps.length = n) : (aim.respond n ps).length = n := by
  have htake : ps.take n = ps := List.take_of_length_le (Nat.le_of_eq h)
  cases aim with
  | anchor target =>
    have hn : n = 1 := hfits
    simp only [Aim.respond, Response.length_project, List.length_take]
    omega
  | force push => exact List.length_replicate
  | length _ | clampLength _ _ | direction _ =>
    have hn : n = 2 := hfits
    subst hn
    simp only [Aim.respond, htake]
    rw [Pairwise.length_respond _ (by omega), h]
  | equalLengths =>
    simp only [Aim.respond, htake]
    rw [Pairwise.length_respond _ (h ▸ hfits), h]
  | parallelLines =>
    simp only [Aim.respond, htake]
    exact Pairwise.length_parallelResponse hfits h
  | angle size =>
    have hn : n = 3 := hfits
    subst hn
    simp only [Aim.respond, htake]
    rw [AngleAtVertex.length_respond, h]
  | colinear | coplanar | cocircular | cospherical => exact Projection.length_ontoFit _ _ h
  | coincident | onLine _ | onPlane _ | onCurve _ | onSurface _ =>
    exact (Response.length_project ..).trans h
  | floor _ | sphereStaticLineCollision _ _ | convexPolygonContainment _ =>
    exact (List.length_map ..).trans h
  | sphereCollision radius =>
    simp only [Aim.respond, htake, Collision.spheresResponse, List.length_map,
      length_mutualCorrections, h]
  | convexPolygonCollision sizes =>
    have hsum : sizes.sum = n := hfits
    exact (Polygon.length_collisionResponse (hsum.trans h.symm)).trans h
  | constantPressure faces pressure => exact FaceForce.length_respond n (· * pressure) faces ps
  | directionalWind faces wind =>
    exact FaceForce.length_respond n (FaceForce.windLoad wind) faces ps
  | constantVolumePressure faces amount =>
    exact FaceForce.length_gasResponse n amount faces ps
  | shapeMatching shape allowScaling =>
    have hshape : shape.points.length = n := hfits
    simp [Aim.respond, TargetShape.respond, hshape, h]

/-- Where a goal is attached, and what it responded before, does not matter to it. -/
theorem Goal.Sound.placed {g : Goal α} (h : g.Sound) (nodes : List Nat) {moves : List (Vec3 α)}
    (hmoves : moves.length = g.nodeCount) {weights : List α}
    (hweights : weights.length = g.nodeCount) :
    ({ g with nodes, moves, weights } : Goal α).Sound :=
  { h with moves_length := hmoves, weights_length := hweights }

/-- Attached to as many nodes as it was made for, a goal leaves nothing of what its buffers held
before. -/
theorem Goal.Sound.compute_eq {g : Goal α} (h : g.Sound) (hnodes : g.nodes.length = g.nodeCount)
    (pool : Pool α) :
    g.compute pool =
      { g with
        moves := (g.aim.respond g.nodeCount (g.positions pool)).moves
        weights := (g.aim.respond g.nodeCount (g.positions pool)).weights g.weight } := by
  have hpositions : (g.positions pool).length = g.nodeCount := (List.length_map ..).trans hnodes
  have hlen := Aim.length_respond h.fits hpositions
  have hmoves := (Response.length_moves _).trans (hlen.trans h.moves_length.symm)
  have hweights := (Response.length_weights g.weight _).trans (hlen.trans h.weights_length.symm)
  simp only [Goal.compute, overwrite_of_length_eq hmoves, overwrite_of_length_eq hweights]

/-! ## Averaged corrections -/

theorem Response.getD_averaged (corrections : List (Vec3 α)) :
    (averaged corrections).getD 0 = Vec3.centroid corrections := by
  unfold averaged Vec3.centroid
  split <;> rfl

theorem Response.isSome_averaged (corrections : List (Vec3 α)) :
    (averaged corrections).isSome = !corrections.isEmpty := by
  cases corrections <;> rfl

/-- Each node moves by the mean of its corrections, and one that has none gets no weight. -/
theorem Goal.Sound.compute_averaged {g : Goal α} (h : g.Sound)
    (hnodes : g.nodes.length = g.nodeCount) {pool : Pool α} {corrections : List (List (Vec3 α))}
    (hrespond : g.aim.respond g.nodeCount (g.positions pool) =
      corrections.map Response.averaged) :
    (g.compute pool).moves = corrections.map Vec3.centroid ∧
      (g.compute pool).weights = corrections.map fun cs => if cs.isEmpty then 0 else g.weight := by
  rw [h.compute_eq hnodes, hrespond]
  dsimp only
  rw [Response.moves, Response.weights, List.map_map, List.map_map]
  refine ⟨List.map_congr_left fun cs _ => Response.getD_averaged cs,
    List.map_congr_left fun cs _ => ?_⟩
  rw [Function.comp_apply, Response.isSome_averaged]
  cases cs.isEmpty <;> rfl

/-- The buffers of a goal that averages what its nodes are pushed by. -/
theorem Goal.Sound.getElem?_compute_averaged {g : Goal α} (h : g.Sound)
    (hnodes : g.nodes.length = g.nodeCount) {pool : Pool α} {corrections : List (List (Vec3 α))}
    (hrespond : g.aim.respond g.nodeCount (g.positions pool) = corrections.map Response.averaged)
    {i : Nat} {cs : List (Vec3 α)} (hi : corrections[i]? = some cs) :
    (g.compute pool).moves[i]? = some (Vec3.centroid cs) ∧
      (g.compute pool).weights[i]? = some (if cs.isEmpty then 0 else g.weight) := by
  obtain ⟨hmoves, hweights⟩ := h.compute_averaged hnodes hrespond
  rw [hmoves, hweights, List.getElem?_map, List.getElem?_map, hi]
  exact ⟨rfl, rfl⟩

end Relaxation
