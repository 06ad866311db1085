import Relaxation.Proofs.Geometry.Segment
import Relaxation.Proofs.Goal.Built
import Relaxation.Proofs.Scalar.Order

/-!
# Closest points on polylines and meshes

The nearest of several candidates, and from it the closest point on a chain of segments and on a mesh of
triangles. On a chain the answer is the nearest point but for what segments that are too short to be
divided by can measure (`Polyline.closestPoint_within`). A face whose first two corners coincide can
have no closest point, and then the mesh has none either, however near the other faces are; in all
other cases the answer is the nearest point of the whole surface
(`TriangleMesh.closestPoint_nearest_iff`).
-/

namespace Relaxation

/-! ## The nearest candidate -/

/-- The pick is least in the total order, for a scalar whose total order is that of a rank. -/
theorem Scalar.firstMinBy_least {α β L : Type} [Scalar α] [LinearOrder L] {rank : α → L}
    (hrank : ∀ x y : α, totalLt x y = true ↔ rank x < rank y) (key : β → α) {bs : List β}
    (h : bs ≠ []) :
    ∃ b ∈ bs, firstMinBy key bs = some b ∧ ∀ b' ∈ bs, rank (key b) ≤ rank (key b') := by
  obtain ⟨i, b, hb, hpick, _, hleast⟩ := exists_firstMinBy_eq hrank key h
  refine ⟨b, List.mem_of_getElem? hb, hpick, fun b' hb' => ?_⟩
  obtain ⟨j, hj⟩ := List.getElem?_of_mem hb'
  exact hleast j b' hj

theorem nearestTo_least {α L : Type} [Scalar α] [LinearOrder L] {rank : α → L}
    (hrank : ∀ x y : α, Scalar.totalLt x y = true ↔ rank x < rank y) (p : Vec3 α)
    {candidates : List (Vec3 α)} (h : candidates ≠ []) :
    nearestTo p candidates ∈ candidates ∧
      ∀ x ∈ candidates, rank ((nearestTo p candidates).distSq p) ≤ rank (x.distSq p) := by
  obtain ⟨q, hmem, hpick, hle⟩ := Scalar.firstMinBy_least hrank (·.distSq p) h
  rw [nearestTo, hpick]
  exact ⟨hmem, hle⟩

/-- A candidate without value is taken for the nearest one. -/
theorem nearestTo_undefined {p : Vec3 ℝ} {candidates : List (Vec3 PartialReal)}
    (hvalues : ∀ x ∈ candidates, x = Vec3.undefined ∨ ∃ q : Vec3 ℝ, x = q.lift)
    (h : Vec3.undefined ∈ candidates) : nearestTo p.lift candidates = Vec3.undefined := by
  obtain ⟨hmem, hle⟩ :=
    nearestTo_least (fun _ _ => PartialReal.totalLt_iff) p.lift (List.ne_nil_of_mem h)
  rcases hvalues _ hmem with hundefined | ⟨q, hq⟩
  · exact hundefined
  · have hrank := hle _ h
    rw [hq] at hrank
    exact absurd hrank (WithBot.not_coe_le_bot _)

theorem nearestTo_lift {p : Vec3 ℝ} {candidates : List (Vec3 PartialReal)} (hne : candidates ≠ [])
    (hvalues : ∀ x ∈ candidates, ∃ q : Vec3 ℝ, x = q.lift) :
    ∃ q : Vec3 ℝ, nearestTo p.lift candidates = q.lift ∧ q.lift ∈ candidates ∧
      ∀ x : Vec3 ℝ, x.lift ∈ candidates → q.distSq p ≤ x.distSq p := by
  obtain ⟨hmem, hle⟩ := nearestTo_least (fun _ _ => PartialReal.totalLt_iff) p.lift hne
  obtain ⟨q, hq⟩ := hvalues _ hmem
  rw [hq] at hmem hle
  exact ⟨q, hq, hmem, fun x hx => WithBot.coe_le_coe.mp (hle _ hx)⟩

/-! ## Polylines -/

namespace Polyline

/-- A segment runs from `a` to `b`: from one point to the next, or from the last point to the first if
the chain is closed. -/
def Joins (points : List (Vec3 ℝ)) (closed : Bool) (a b : Vec3 ℝ) : Prop :=
  (∃ i : Nat, points[i]? = some a ∧ points[i + 1]? = some b) ∨
    closed = true ∧ points.getLast? = some a ∧ points.head? = some b

/-- The points of all segments. -/
def curve (points : List (Vec3 ℝ)) (closed : Bool) : Set (Vec3 ℝ) :=
  {x | ∃ a b, Joins points closed a b ∧ x ∈ segment ℝ a b}

theorem make_eq_ok_iff {α : Type} {points : List (Vec3 α)} {closed : Bool} {l : Polyline α} :
    make points closed = .ok l ↔ 2 ≤ points.length ∧ ⟨points, closed⟩ = l := by
  unfold make
  split
  case isTrue h => simp [h]
  case isFalse h => simp [not_lt.mp h]

variable {points : List (Vec3 ℝ)} {closed : Bool}

theorem mem_segments_iff {a b : Vec3 ℝ} :
    (a, b) ∈ (⟨points, closed⟩ : Polyline ℝ).segments ↔ Joins points closed a b := by
  have hchain : (a, b) ∈ points.zip points.tail ↔
      ∃ i : Nat, points[i]? = some a ∧ points[i + 1]? = some b := by
    simp only [List.mem_iff_getElem?, List.getElem?_zip_eq_some, List.getElem?_tail]
  rw [segments, List.mem_append, hchain, Joins]
  refine or_congr_right ?_
  cases closed with
  | false => simp
  | true =>
    cases points.getLast? with
    | none => simp
    | some last =>
      cases points.head? with
      | none => simp
      | some first => simp [eq_comm]

theorem segments_ne_nil (h : 2 ≤ points.length) (closed : Bool) :
    (⟨points, closed⟩ : Polyline ℝ).segments ≠ [] := by
  match points, h with
  | a :: b :: rest, _ => exact List.append_ne_nil_of_left_ne_nil (List.cons_ne_nil _ _) _

/-- The answer is found on one of the segments, and nothing nearer is found on the others. -/
theorem closestPoint_least (h : 2 ≤ points.length) (closed : Bool) (p : Vec3 ℝ) :
    let q := (⟨points, closed⟩ : Polyline ℝ).closestPoint p
    (∃ a b, Joins points closed a b ∧ closestOnSegment p a b = q) ∧
      ∀ a b, Joins points closed a b → q.distSq p ≤ (closestOnSegment p a b).distSq p := by
  intro q
  have hne : (⟨points, closed⟩ : Polyline ℝ).segments.map
      (fun s => closestOnSegment p s.1 s.2) ≠ [] :=
    mt List.map_eq_nil_iff.mp (segments_ne_nil h closed)
  have horder : ∀ x y : ℝ, Scalar.totalLt x y = true ↔ id x < id y :=
    fun _ _ => Scalar.totalLt_real_iff
  obtain ⟨hmem, hle⟩ := nearestTo_least horder p hne
  constructor
  · obtain ⟨⟨a, b⟩, hab, hq⟩ := List.mem_map.mp hmem
    exact ⟨a, b, mem_segments_iff.mp hab, hq⟩
  · intro a b hab
    exact hle _ (List.mem_map.mpr ⟨(a, b), mem_segments_iff.mpr hab, rfl⟩)

/-- A chain answers with one of its points, and no other one is nearer by more than `1e-6`; none is
nearer at all when every segment is a point or long enough. -/
theorem closestPoint_within {l : Polyline ℝ} (h : make points closed = .ok l) (p : Vec3 ℝ) :
    l.closestPoint p ∈ curve points closed ∧
    (∀ x ∈ curve points closed, (l.closestPoint p - p).norm ≤ (x - p).norm + 1e-6) ∧
    ((∀ a b, Joins points closed a b → (b - a).normSq = 0 ∨ 1e-12 ≤ (b - a).normSq) →
      IsNearest p (curve points closed) (l.closestPoint p)) := by
  obtain ⟨hlength, rfl⟩ := make_eq_ok_iff.mp h
  obtain ⟨⟨a, b, hab, hq⟩, hle⟩ := closestPoint_least hlength closed p
  have hmem : (⟨points, closed⟩ : Polyline ℝ).closestPoint p ∈ curve points closed :=
    ⟨a, b, hab, hq ▸ closestOnSegment_mem p a b⟩
  refine ⟨hmem, ?_, fun hsizes => ⟨hmem, ?_⟩⟩
  · rintro x ⟨a, b, hab, hx⟩
    exact ((Vec3.norm_le_norm_iff _ _).mpr (hle a b hab)).trans (closestOnSegment_within hx)
  · rintro x ⟨a, b, hab, hx⟩
    exact (hle a b hab).trans ((isNearest_closestOnSegment (hsizes a b hab)).le x hx)

/-- A closed chain that stops twice at its second point, seen from where the segment back to its start
passes. -/
theorem closestPoint_within_joint :
    let points : List (Vec3 ℝ) := [0, ⟨2, 0, 0⟩, ⟨2, 0, 0⟩, ⟨2, 2, 0⟩]
    let l : Polyline ℝ := ⟨points, true⟩
    let p : Vec3 ℝ := ⟨0, 2, 0⟩
    make points true = .ok l ∧
      (∀ a b, Joins points true a b → (b - a).normSq = 0 ∨ 1e-12 ≤ (b - a).normSq) ∧
      IsNearest p (curve points true) (l.closestPoint p) := by
  intro points l p
  have hmake : make points true = .ok l := make_eq_ok_iff.mpr ⟨by simp [points], rfl⟩
  have hsizes : ∀ a b, Joins points true a b → (b - a).normSq = 0 ∨ 1e-12 ≤ (b - a).normSq := by
    rintro a b (⟨_ | _ | _ | i, ha, hb⟩ | ⟨-, ha, hb⟩)
    case inl.succ.succ.succ => cases hb
    all_goals
      cases ha
      cases hb
      norm_num [Vec3.normSq, Vec3.dot]
  exact ⟨hmake, hsizes, (closestPoint_within hmake p).2.2 hsizes⟩

end Polyline

/-! ## Meshes -/

namespace TriangleMesh

/-- The triangle of a face. -/
def facet (vertices : List (Vec3 ℝ)) (f : Face) : Set (Vec3 ℝ) :=
  triangle (vertexAt vertices f.a) (vertexAt vertices f.b) (vertexAt vertices f.c)

/-- The points of all faces. -/
def surface (vertices : List (Vec3 ℝ)) (faces : List Face) : Set (Vec3 ℝ) :=
  {x | ∃ f ∈ faces, x ∈ facet vertices f}

/-- The face has no closest point to `p`. -/
def PinchedAt (vertices : List (Vec3 ℝ)) (p : Vec3 ℝ) (f : Face) : Prop :=
  Pinched p (vertexAt vertices f.a) (vertexAt vertices f.b) (vertexAt vertices f.c)

theorem vertexAt_lift (vertices : List (Vec3 ℝ)) (i : Nat) :
    vertexAt (vertices.map Vec3.lift) i = (vertexAt vertices i).lift := by
  rw [vertexAt, vertexAt, List.getElem?_map]
  cases vertices[i]? with
  | none => rfl
  | some v => rfl

section Answers

variable (vertices : List (Vec3 ℝ)) {faces : List Face} (p : Vec3 ℝ)

/-- The closest point on one face. -/
noncomputable def answer (f : Face) : Vec3 PartialReal :=
  closestOnTriangle p.lift (vertexAt vertices f.a).lift (vertexAt vertices f.b).lift
    (vertexAt vertices f.c).lift

theorem closestPoint_eq (faces : List Face) :
    (⟨vertices.map Vec3.lift, faces⟩ : TriangleMesh PartialReal).closestPoint p.lift =
      nearestTo p.lift (faces.map (answer vertices p)) := by
  simp only [closestPoint, vertexAt_lift]
  rfl

variable {vertices p}

theorem closestPoint_undefined (h : ∃ f ∈ faces, PinchedAt vertices p f) :
    (⟨vertices.map Vec3.lift, faces⟩ : TriangleMesh PartialReal).closestPoint p.lift =
      Vec3.undefined := by
  rw [closestPoint_eq]
  apply nearestTo_undefined
  · intro x hx
    obtain ⟨f, _, rfl⟩ := List.mem_map.mp hx
    by_cases hf : PinchedAt vertices p f
    · exact .inl (closestOnTriangle_pinched hf)
    · obtain ⟨q, hq, _⟩ := closestOnTriangle_lift hf
      exact .inr ⟨q, hq⟩
  · obtain ⟨f, hf, hpinched⟩ := h
    exact List.mem_map.mpr ⟨f, hf, closestOnTriangle_pinched hpinched⟩

theorem closestPoint_isNearest (hne : faces ≠ []) (h : ∀ f ∈ faces, ¬PinchedAt vertices p f) :
    ∃ q : Vec3 ℝ, (⟨vertices.map Vec3.lift, faces⟩ : TriangleMesh PartialReal).closestPoint p.lift =
      q.lift ∧ IsNearest p (surface vertices faces) q := by
  have hanswer : ∀ f ∈ faces, ∃ q : Vec3 ℝ, answer vertices p f = q.lift ∧
      IsNearest p (facet vertices f) q :=
    fun f hf => closestOnTriangle_lift (h f hf)
  have hvalues : ∀ x ∈ faces.map (answer vertices p), ∃ q : Vec3 ℝ, x = q.lift := by
    intro x hx
    obtain ⟨f, hf, rfl⟩ := List.mem_map.mp hx
    obtain ⟨q, hq, _⟩ := hanswer f hf
    exact ⟨q, hq⟩
  obtain ⟨q, heq, hmem, hle⟩ := nearestTo_lift (p := p) (by simpa using hne) hvalues
  refine ⟨q, (closestPoint_eq ..).trans heq, ?_, ?_⟩
  · obtain ⟨f, hf, hq⟩ := List.mem_map.mp hmem
    obtain ⟨q', hq', hnearest⟩ := hanswer f hf
    obtain rfl := Vec3.lift_injective (hq'.symm.trans hq)
    exact ⟨f, hf, hnearest.mem⟩
  · rintro x ⟨f, hf, hx⟩
    obtain ⟨q', hq', hnearest⟩ := hanswer f hf
    exact (hle q' (List.mem_map.mpr ⟨f, hf, hq'⟩)).trans (hnearest.le x hx)

end Answers

/-- A mesh answers with the nearest point of its surface, unless the first two corners of some face
coincide and the point lies ahead of them along the edge to the third one. -/
theorem closestPoint_nearest_iff {vertices : List (Vec3 ℝ)} {faces : List Face}
    {m : TriangleMesh PartialReal} (h : make (vertices.map Vec3.lift) faces = .ok m) (p : Vec3 ℝ) :
    (m.closestPoint p.lift = Vec3.undefined ↔ ∃ f ∈ faces, PinchedAt vertices p f) ∧
      (m.closestPoint p.lift ≠ Vec3.undefined →
        ∃ q : Vec3 ℝ, m.closestPoint p.lift = q.lift ∧ IsNearest p (surface vertices faces) q) := by
  obtain ⟨_, hne, rfl⟩ := make_eq_ok_iff.mp h
  have hdefined : (∀ f ∈ faces, ¬PinchedAt vertices p f) → _ := closestPoint_isNearest hne
  constructor
  · refine ⟨fun hundefined => ?_, closestPoint_undefined⟩
    by_contra hpinched
    push Not at hpinched
    obtain ⟨q, hq, _⟩ := hdefined hpinched
    exact q.lift_ne_undefined (hq.symm.trans hundefined)
  · intro hvalue
    exact hdefined fun f hf hpinched => hvalue (closestPoint_undefined ⟨f, hf, hpinched⟩)

/-- A triangle and a face that runs along one of its edges and back. -/
def folded : List (Vec3 ℝ) × List Face :=
  ([⟨0, 0, 0⟩, ⟨1, 0, 0⟩, ⟨0, 1, 0⟩], [⟨0, 1, 2⟩, ⟨0, 0, 1⟩])

theorem make_folded {α : Type} (f : Vec3 ℝ → Vec3 α) :
    make (folded.1.map f) folded.2 = .ok ⟨folded.1.map f, folded.2⟩ := by
  refine make_eq_ok_iff.mpr ⟨?_, List.cons_ne_nil _ _, rfl⟩
  simp [folded, Face.Within, Face.corners]

/-- Behind the corner where the two faces meet nothing is wrong. -/
theorem closestPoint_nearest_iff_behind :
    let p : Vec3 ℝ := ⟨-1, -1, 0⟩
    let m : TriangleMesh PartialReal := ⟨folded.1.map Vec3.lift, folded.2⟩
    make (folded.1.map Vec3.lift) folded.2 = .ok m ∧
      ∃ q : Vec3 ℝ, m.closestPoint p.lift = q.lift ∧ IsNearest p (surface folded.1 folded.2) q := by
  intro p m
  obtain ⟨hiff, hnearest⟩ := closestPoint_nearest_iff (make_folded Vec3.lift) p
  refine ⟨make_folded Vec3.lift, hnearest (mt hiff.mp ?_)⟩
  rintro ⟨f, hf, heq, hahead⟩
  simp only [folded, List.mem_cons, List.not_mem_nil, or_false] at hf
  rcases hf with rfl | rfl
  · simp [folded, vertexAt] at heq
  · norm_num [folded, vertexAt, Triangle.along, Vec3.dot, p] at hahead

/-- The second face adds nothing to the surface. -/
theorem surface_folded :
    surface folded.1 folded.2 = triangle ⟨0, 0, 0⟩ ⟨1, 0, 0⟩ ⟨0, 1, 0⟩ := by
  have hfirst : facet folded.1 ⟨0, 1, 2⟩ = triangle ⟨0, 0, 0⟩ ⟨1, 0, 0⟩ ⟨0, 1, 0⟩ := rfl
  have hsecond : facet folded.1 ⟨0, 0, 1⟩ ⊆ triangle ⟨0, 0, 0⟩ ⟨1, 0, 0⟩ ⟨0, 1, 0⟩ := by
    apply convexHull_mono
    simp [folded, vertexAt, Set.insert_subset_iff]
  ext x
  constructor
  · rintro ⟨f, hf, hx⟩
    simp only [folded, List.mem_cons, List.not_mem_nil, or_false] at hf
    rcases hf with rfl | rfl
    · exact hfirst ▸ hx
    · exact hsecond hx
  · intro hx
    exact ⟨⟨0, 1, 2⟩, by simp [folded], hfirst ▸ hx⟩

/-- On the far side of the triangle the face without area takes the place of the nearest point. -/
theorem closestPoint_captured :
    let p : Vec3 ℝ := ⟨1, 1, 0⟩
    let m : TriangleMesh PartialReal := ⟨folded.1.map Vec3.lift, folded.2⟩
    make (folded.1.map Vec3.lift) folded.2 = .ok m ∧ m.closestPoint p.lift = Vec3.undefined ∧
      IsNearest p (surface folded.1 folded.2) ⟨1 / 2, 1 / 2, 0⟩ := by
  intro p m
  have hpinched : PinchedAt folded.1 p ⟨0, 0, 1⟩ := by
    refine ⟨rfl, ?_⟩
    norm_num [folded, vertexAt, Triangle.along, Vec3.dot, p]
  have hedge : Triangle.AtEdge p ⟨1, 0, 0⟩ ⟨0, 1, 0⟩ ⟨0, 0, 0⟩ := by
    norm_num [Triangle.AtEdge, Triangle.side, Triangle.along, Vec3.normSq, Vec3.dot, p]
  have hnearest := hedge.isNearest (by simp)
  refine ⟨make_folded Vec3.lift, closestPoint_undefined ⟨_, by simp [folded], hpinched⟩, ?_⟩
  rw [surface_folded, ← Triangle.rotate]
  convert hnearest using 1
  ext <;> norm_num [Triangle.along, Vec3.normSq, Vec3.dot, p]

end TriangleMesh
end Relaxation
