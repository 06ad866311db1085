import Mathlib.Data.Real.Basic
import Relaxation.Proofs.Geometry.Rotation
import Relaxation.Proofs.Goal.Lengths

/-!
# Goals that turn pairs into a direction

Unit vectors that are all turned to the side of the first one cannot cancel: along the first one every
term of their sum counts for at least nothing, and the first one counts for one. So in exact arithmetic
vectors have a common direction as soon as one of them is not almost zero
(`Pairwise.commonDirection_eq_none_iff`). Taken in full, the response of a goal that turns pairs into
their common direction, or into a fixed one, puts every pair along it without turning it over
(`Goal.Built.aligns_pairs`).
-/

namespace Relaxation

/-- The goals that turn the vectors between the nodes of pairs into a direction. -/
def GoalKind.OnDirections : GoalKind → Prop
  | .parallelLines | .direction => True
  | _ => False

/-! ## The common direction -/

namespace Vec3

/-- A vector that is as long as a unit vector along it is no small one. -/
theorem not_almostZero_of_one_le_dot {v w : Vec3 ℝ} (hv : v.normSq = 1) (h : 1 ≤ v.dot w) :
    ¬w.almostZero 1e-12 = true := by
  intro hsmall
  have hlength : 1 ≤ w.normSq := by
    calc 1 ≤ v.dot w * v.dot w := one_le_mul_of_one_le_of_one_le h h
      _ ≤ v.normSq * w.normSq := dot_mul_self_le v w
      _ = w.normSq := by rw [hv, one_mul]
  have hshort := normSq_lt_of_almostZero hsmall
  norm_num at hshort
  linarith

end Vec3

namespace Pairwise

/-- A vector or its opposite, whichever is on the side of `reference`. -/
noncomputable def sided (reference u : Vec3 ℝ) : Vec3 ℝ := if u.dot reference < 0 then -u else u

theorem dot_sided (reference u : Vec3 ℝ) : reference.dot (sided reference u) = |u.dot reference| := by
  unfold sided
  split
  case isTrue h => rw [Vec3.dot_neg, Vec3.dot_comm, abs_of_neg h]
  case isFalse h => rw [Vec3.dot_comm, abs_of_nonneg (not_lt.mp h)]

/-- The reference itself is one of the vectors summed up, and no other one counts against it. -/
theorem one_le_dot_sum_sided {reference : Vec3 ℝ} (hunit : reference.normSq = 1)
    {us : List (Vec3 ℝ)} (hmem : reference ∈ us) :
    1 ≤ reference.dot (us.map (sided reference)).sum := by
  have hterms : (us.map (sided reference)).map reference.dot = us.map fun u => |u.dot reference| := by
    rw [List.map_map]
    exact List.map_congr_left fun u _ => dot_sided reference u
  have hnonneg : ∀ x ∈ us.map fun u => |u.dot reference|, 0 ≤ x :=
    List.forall_mem_map.mpr fun _ _ => abs_nonneg _
  rw [Vec3.dot_sum, hterms]
  calc 1 = |reference.dot reference| := by rw [← Vec3.normSq, hunit, abs_one]
    _ ≤ _ := List.single_le_sum hnonneg _ (List.mem_map_of_mem hmem)

/-- The unit vectors along those of the vectors that are not almost zero. -/
noncomputable def units (vs : List (Vec3 ℝ)) : List (Vec3 ℝ) :=
  (vs.filter (!Vec3.almostZero 1e-12 ·)).map Vec3.normalize

theorem normSq_of_mem_units {vs : List (Vec3 ℝ)} {u : Vec3 ℝ} (h : u ∈ units vs) :
    u.normSq = 1 := by
  obtain ⟨v, hv, rfl⟩ := List.mem_map.mp h
  have hlong : ¬v.almostZero 1e-12 = true := by simpa using (List.mem_filter.mp hv).2
  exact Vec3.normSq_normalize (Vec3.ne_zero_of_not_almostZero (by norm_num) hlong)

theorem units_eq_nil_iff {vs : List (Vec3 ℝ)} :
    units vs = [] ↔ ∀ v ∈ vs, v.almostZero 1e-12 = true := by
  simp [units, List.filter_eq_nil_iff]

/-- The test for a sum that cancels never finds one. -/
theorem commonDirection_eq (vs : List (Vec3 ℝ)) :
    commonDirection vs =
      (units vs).head?.map fun first => ((units vs).map (sided first)).sum.normalize := by
  have hunits : (vs.filter (!Vec3.almostZero 1e-12 ·)).map Vec3.normalize = units vs := rfl
  unfold commonDirection
  dsimp only
  rw [hunits]
  split
  case h_1 hnil => rw [hnil, List.head?_nil, Option.map_none]
  case h_2 first rest hcons =>
    have hmem : first ∈ units vs := by rw [hcons]; exact List.mem_cons_self
    have htotal := Vec3.not_almostZero_of_one_le_dot (normSq_of_mem_units hmem)
      (one_le_dot_sum_sided (normSq_of_mem_units hmem) hmem)
    have hhead : (units vs).head? = some first := by rw [hcons, List.head?_cons]
    rw [Vec3.sum_eq, hhead, Option.map_some]
    exact if_neg htotal

theorem commonDirection_eq_none_iff {vs : List (Vec3 ℝ)} :
    commonDirection vs = none ↔ ∀ v ∈ vs, v.almostZero 1e-12 = true := by
  rw [commonDirection_eq, Option.map_eq_none_iff, List.head?_eq_none_iff, units_eq_nil_iff]

theorem normSq_of_mem_commonDirection {vs : List (Vec3 ℝ)} {d : Vec3 ℝ}
    (h : d ∈ commonDirection vs) : d.normSq = 1 := by
  rw [commonDirection_eq] at h
  obtain ⟨first, hfirst, rfl⟩ := Option.map_eq_some_iff.mp h
  have hmem : first ∈ units vs := List.mem_of_mem_head? hfirst
  have htotal := Vec3.not_almostZero_of_one_le_dot (normSq_of_mem_units hmem)
    (one_le_dot_sum_sided (normSq_of_mem_units hmem) hmem)
  exact Vec3.normSq_normalize (Vec3.ne_zero_of_not_almostZero (by norm_num) htotal)

/-! ## Turned vectors -/

/-- The vector of the length of `delta` along `direction`, in the sense that is nearer to `delta`. -/
noncomputable def aligned (direction delta : Vec3 ℝ) : Vec3 ℝ :=
  direction * ((if delta.dot direction < 0 then -1 else 1) * delta.norm)

theorem ontoDirection_of_not_almostZero {direction delta : Vec3 ℝ} (h : ¬delta.almostZero 1e-12 = true) :
    ontoDirection direction delta = some (delta - aligned direction delta) := if_neg h

theorem ontoDirection_of_almostZero {delta : Vec3 ℝ} (h : delta.almostZero 1e-12 = true)
    (direction : Vec3 ℝ) : ontoDirection direction delta = none := if_pos h

theorem norm_aligned {direction : Vec3 ℝ} (hunit : direction.normSq = 1) (delta : Vec3 ℝ) :
    (aligned direction delta).norm = delta.norm := by
  unfold aligned
  split
  · rw [Vec3.norm_mul, Vec3.norm_eq_one hunit, neg_one_mul, abs_neg,
      abs_of_nonneg delta.norm_nonneg, one_mul]
  · rw [one_mul, Vec3.norm_mul_norm hunit]

theorem aligned_cross (direction delta : Vec3 ℝ) : (aligned direction delta).cross direction = 0 := by
  rw [Vec3.cross_swap, aligned, Vec3.cross_mul, Vec3.cross_self, Vec3.mul_real, smul_zero, neg_zero]

theorem aligned_dot_nonneg (direction delta : Vec3 ℝ) :
    0 ≤ (aligned direction delta).dot delta := by
  rw [Vec3.dot_comm, aligned, Vec3.dot_mul, ← mul_assoc]
  refine mul_nonneg ?_ delta.norm_nonneg
  split
  case isTrue h => linarith
  case isFalse h => linarith

end Pairwise

namespace Aim

/-- The direction that an aim turns the pairs of a list of positions into. -/
noncomputable def direction? (ps : List (Vec3 ℝ)) : Aim ℝ → Option (Vec3 ℝ)
  | parallelLines => Pairwise.commonDirection (Pairwise.deltas ps)
  | direction unit => some unit
  | _ => none

variable {aim : Aim ℝ} {ps : List (Vec3 ℝ)}

theorem normSq_of_mem_direction? (hlawful : aim.Lawful) {d : Vec3 ℝ} (hd : d ∈ aim.direction? ps) :
    d.normSq = 1 := by
  cases aim with
  | parallelLines => exact Pairwise.normSq_of_mem_commonDirection hd
  | direction unit =>
    cases Option.some.inj hd
    rw [← Vec3.norm_mul_self, hlawful.norm_direction, one_mul]
  | _ => cases hd

/-- Only pairs that almost coincide can do without a direction. -/
theorem isSome_direction? (hkind : aim.kind.OnDirections) {delta : Vec3 ℝ}
    (hmem : delta ∈ Pairwise.deltas ps) (hlong : ¬delta.almostZero 1e-12 = true) :
    ∃ d, d ∈ aim.direction? ps := by
  cases aim with
  | parallelLines =>
    refine Option.ne_none_iff_exists'.mp fun hnone => hlong ?_
    exact Pairwise.commonDirection_eq_none_iff.mp hnone delta hmem
  | direction unit => exact ⟨unit, rfl⟩
  | _ => cases hkind

/-- Where no direction is found, no pair is turned, into whatever direction. -/
theorem respond_onDirections (hkind : aim.kind.OnDirections) {n : Nat} (hfits : aim.Fits n)
    (hps : ps.length = n) :
    aim.respond n ps =
      Pairwise.respond (Pairwise.ontoDirection ((aim.direction? ps).getD 0)) ps := by
  have htake : ps.take n = ps := List.take_of_length_le hps.le
  cases aim with
  | parallelLines =>
    rw [respond, htake, direction?, Pairwise.parallelResponse]
    cases hcommon : Pairwise.commonDirection (Pairwise.deltas ps) with
    | some d => rfl
    | none =>
      have hshort := Pairwise.commonDirection_eq_none_iff.mp hcommon
      have hcorrections : (Pairwise.deltas ps).map (Pairwise.ontoDirection 0) =
          List.replicate (n / 2) none := by
        rw [List.map_congr_left fun delta hdelta =>
          Pairwise.ontoDirection_of_almostZero (hshort delta hdelta) 0, List.map_const',
          Pairwise.deltas, List.length_map, length_pairs, hps]
      have heven : n = 2 * (n / 2) := (Nat.mul_div_cancel' (Nat.dvd_of_mod_eq_zero hfits)).symm
      rw [Option.getD_none, Pairwise.respond_eq, hcorrections, ← Response.idle_eq_flatMap_split,
        ← heven]
  | direction unit =>
    cases hfits
    rw [respond, htake]
    rfl
  | _ => cases hkind

/-- A pair that has a direction is turned about its midpoint, and one that almost coincides is not
touched. -/
theorem exists_aligned_pair (hkind : aim.kind.OnDirections) (hlawful : aim.Lawful) {n : Nat}
    (hfits : aim.Fits n) (hps : ps.length = n) (weight : ℝ) {k : Nat} {a b : Vec3 ℝ}
    (ha : ps[2 * k]? = some a) (hb : ps[2 * k + 1]? = some b) :
    let response := aim.respond n ps
    let moved := ps.zipWith (· + ·) response.moves
    ∃ (a' b' : Vec3 ℝ) (w : ℝ), moved[2 * k]? = some a' ∧ moved[2 * k + 1]? = some b' ∧
      (response.weights weight)[2 * k]? = some w ∧
      (response.weights weight)[2 * k + 1]? = some w ∧
      (¬(b - a).almostZero 1e-12 = true →
        a' + b' = a + b ∧ (b' - a').norm = (b - a).norm ∧ 0 ≤ (b' - a').dot (b - a) ∧ w = weight ∧
        ∃ d ∈ aim.direction? ps, d.norm = 1 ∧ (b' - a').cross d = 0) ∧
      ((b - a).almostZero 1e-12 = true →
        response.moves[2 * k]? = some 0 ∧ response.moves[2 * k + 1]? = some 0 ∧ w = 0) := by
  intro response moved
  have hresponse : response = _ := respond_onDirections hkind hfits hps
  obtain ⟨ha', hb', hmove_a, hmove_b, hweight_a, hweight_b⟩ := Pairwise.getElem?_moved_pair
    (Pairwise.ontoDirection ((aim.direction? ps).getD 0)) weight ha hb
  rw [← hresponse] at ha' hb' hmove_a hmove_b hweight_a hweight_b
  refine ⟨_, _, _, ha', hb', hweight_a, hweight_b, fun hlong => ?_, fun hshort => ?_⟩
  · have hmem : b - a ∈ Pairwise.deltas ps :=
      List.mem_map.mpr ⟨(a, b), List.mem_of_getElem? (getElem?_pairs_eq_some_iff.mpr ⟨ha, hb⟩), rfl⟩
    obtain ⟨d, hd⟩ := isSome_direction? hkind hmem hlong
    have hunit := normSq_of_mem_direction? hlawful hd
    have hturned : Pairwise.ontoDirection d (b - a) = some (b - a - Pairwise.aligned d (b - a)) :=
      Pairwise.ontoDirection_of_not_almostZero hlong
    rw [Pairwise.sub_halves, hd, Option.getD_some, hturned, Option.getD_some, sub_sub_cancel]
    refine ⟨?_, Pairwise.norm_aligned hunit _, Pairwise.aligned_dot_nonneg d _, rfl, d, rfl,
      Vec3.norm_eq_one hunit, Pairwise.aligned_cross d _⟩
    abel
  · rw [Pairwise.ontoDirection_of_almostZero hshort, Option.getD_none, Vec3.mul_real, smul_zero] at *
    refine ⟨hmove_a, ?_, rfl⟩
    rw [hmove_b, neg_zero]

end Aim

/-! ## The goals -/

namespace Goal

/-- Vectors have a common direction, a unit vector, unless all of them are almost zero. On any nodes,
whatever it responded before, a goal that turns pairs into a direction keeps the midpoint and the
length of every pair that does not almost coincide, puts it along the direction and does not turn it
over. The other pairs are not touched. -/
theorem Built.aligns_pairs :
    (∀ vs : List (Vec3 ℝ),
      (Pairwise.commonDirection vs = none ↔ ∀ v ∈ vs, v.almostZero 1e-12 = true) ∧
        ∀ d ∈ Pairwise.commonDirection vs, d.norm = 1) ∧
    ∀ {g : Goal ℝ}, g.Built → g.kind.OnDirections → ∀ (pool : Pool ℝ) {nodes : List Nat},
      nodes.length = g.nodeCount → ∀ {moves : List (Vec3 ℝ)}, moves.length = g.nodeCount →
      ∀ {weights : List ℝ}, weights.length = g.nodeCount →
      let after := ({ g with nodes, moves, weights } : Goal ℝ).compute pool
      let before := pool.positions nodes
      let moved := before.zipWith (· + ·) after.moves
      ∀ (k : Nat) (a b : Vec3 ℝ), before[2 * k]? = some a → before[2 * k + 1]? = some b →
        ∃ (a' b' : Vec3 ℝ) (w : ℝ), moved[2 * k]? = some a' ∧ moved[2 * k + 1]? = some b' ∧
          after.weights[2 * k]? = some w ∧ after.weights[2 * k + 1]? = some w ∧
          (¬(b - a).almostZero 1e-12 = true →
            a' + b' = a + b ∧ (b' - a').norm = (b - a).norm ∧ 0 ≤ (b' - a').dot (b - a) ∧
            w = g.weight ∧ ∃ d ∈ g.aim.direction? before, d.norm = 1 ∧ (b' - a').cross d = 0) ∧
          ((b - a).almostZero 1e-12 = true →
            after.moves[2 * k]? = some 0 ∧ after.moves[2 * k + 1]? = some 0 ∧ w = 0) := by
  refine ⟨fun vs => ⟨Pairwise.commonDirection_eq_none_iff, fun d hd =>
    Vec3.norm_eq_one (Pairwise.normSq_of_mem_commonDirection hd)⟩, ?_⟩
  intro g hg hkind pool nodes hnodes moves hmoves weights hweights after before moved k a b ha hb
  have hcount : before.length = g.nodeCount := (List.length_map ..).trans hnodes
  have hafter : after = _ := (hg.sound.placed nodes hmoves hweights).compute_eq hnodes pool
  have hafter_moves : after.moves = (g.aim.respond g.nodeCount before).moves := by rw [hafter]; rfl
  have hafter_weights : after.weights = (g.aim.respond g.nodeCount before).weights g.weight := by
    rw [hafter]; rfl
  have hmoved : moved = before.zipWith (· + ·) (g.aim.respond g.nodeCount before).moves :=
    congrArg _ hafter_moves
  rw [hmoved, hafter_moves, hafter_weights]
  exact Aim.exists_aligned_pair hkind hg.lawful.aim_lawful hg.sound.fits hcount g.weight ha hb

/-- Two opposite segments, whose unit vectors cancel unless one of them is turned over, with a collapsed
one; and a segment at right angles to its direction. -/
theorem Built.aligns_pairs_opposite :
    let lines : Goal ℝ := ofAim .parallelLines
      [0, Vec3.xAxis, Vec3.xAxis, 0, Vec3.zAxis, Vec3.zAxis] 1
    let upright : Goal ℝ := ofAim (.direction Vec3.xAxis.normalize) [0, Vec3.zAxis] 1
    let pool : Pool ℝ := #[.atRest 0, .atRest Vec3.xAxis, .atRest Vec3.zAxis]
    let before := pool.positions [0, 1, 1, 0, 2, 2]
    let after := ({ lines with nodes := [0, 1, 1, 0, 2, 2] } : Goal ℝ).compute pool
    let moved := before.zipWith (· + ·) after.moves
    let turned := (pool.positions [0, 2]).zipWith (· + ·)
      (({ upright with nodes := [0, 2] } : Goal ℝ).compute pool).moves
    (lines.Built ∧ lines.kind.OnDirections ∧ upright.Built ∧ upright.kind.OnDirections) ∧
      (∃ d ∈ Pairwise.commonDirection (Pairwise.deltas before), d.norm = 1) ∧
      (∃ a b : Vec3 ℝ, moved[2]? = some a ∧ moved[3]? = some b ∧ a + b = Vec3.xAxis ∧
        (b - a).norm = 1 ∧ 0 ≤ (b - a).dot (-Vec3.xAxis)) ∧
      after.weights[4]? = some 0 ∧ after.weights[5]? = some 0 ∧
      ∃ a b : Vec3 ℝ, turned[0]? = some a ∧ turned[1]? = some b ∧ a + b = Vec3.zAxis ∧
        (b - a).cross Vec3.xAxis.normalize = 0 := by
  intro lines upright pool before after moved turned
  have hweight : Usable (1 : ℝ) := usable_real_iff.mpr zero_le_one
  have hx : (Vec3.xAxis : Vec3 ℝ).normSq = 1 := by simp [Vec3.normSq, Vec3.dot, Vec3.xAxis]
  have hz : (Vec3.zAxis : Vec3 ℝ).normSq = 1 := by simp [Vec3.normSq, Vec3.dot, Vec3.zAxis]
  have hlong_x : ¬((0 : Vec3 ℝ) - Vec3.xAxis).almostZero 1e-12 = true := by
    rw [zero_sub]
    exact Vec3.not_almostZero_of_unit ((Vec3.normSq_neg _).trans hx)
  have hlong_z : ¬((Vec3.zAxis : Vec3 ℝ) - 0).almostZero 1e-12 = true := by
    rw [sub_zero]
    exact Vec3.not_almostZero_of_unit hz
  have hmade : parallelLines [0, Vec3.xAxis, Vec3.xAxis, 0, Vec3.zAxis, Vec3.zAxis] 1 = .ok lines :=
    parallelLines_eq_ok_iff.mpr ⟨⟨List.cons_ne_nil _ _, rfl⟩, hweight, rfl⟩
  have hlines : lines.Built := .made (.parallelLines hmade) (.of_shapeless rfl)
  have hfixed : (Vec3.xAxis : Vec3 ℝ).almostZero 1e-12 = false :=
    Bool.eq_false_iff.mpr (Vec3.not_almostZero_of_unit hx)
  have hupright : upright.Built :=
    .made (.direction (direction_eq_ok_iff.mpr ⟨hweight, rfl, hfixed, rfl⟩)) (.of_shapeless rfl)
  have hnodes : [0, 1, 1, 0, 2, 2].length = lines.nodeCount := rfl
  have hnodes' : [0, 2].length = upright.nodeCount := rfl
  obtain ⟨hcommon, hpairs⟩ := aligns_pairs
  have hlines_pairs := hpairs hlines trivial pool hnodes hlines.sound.moves_length
    hlines.sound.weights_length
  obtain ⟨a, b, _, ha, hb, -, -, hreversed, -⟩ := hlines_pairs 1 Vec3.xAxis 0 rfl rfl
  obtain ⟨_, _, _, -, -, hweight_a, hweight_b, -, hcollapsed⟩ :=
    hlines_pairs 2 Vec3.zAxis Vec3.zAxis rfl rfl
  obtain ⟨a', b', _, ha', hb', -, -, hupright_pair, -⟩ := hpairs hupright trivial pool hnodes'
    hupright.sound.moves_length hupright.sound.weights_length 0 0 Vec3.zAxis rfl rfl
  have hzero : ((Vec3.zAxis : Vec3 ℝ) - Vec3.zAxis).almostZero 1e-12 = true := by
    rw [sub_self]
    norm_num [Vec3.almostZero]
  refine ⟨⟨hlines, trivial, hupright, trivial⟩, ?_, ⟨a, b, ha, hb, ?_⟩, ?_, ?_, a', b', ha', hb', ?_⟩
  · cases hd : Pairwise.commonDirection (Pairwise.deltas before) with
    | none =>
      have hmem : (0 : Vec3 ℝ) - Vec3.xAxis ∈ Pairwise.deltas before :=
        List.mem_cons_of_mem _ List.mem_cons_self
      exact absurd ((hcommon _).1.mp hd _ hmem) hlong_x
    | some d => exact ⟨d, rfl, (hcommon _).2 d hd⟩
  · obtain ⟨hmidpoint, hlength, hsense, -⟩ := hreversed hlong_x
    rw [zero_sub] at hlength hsense
    exact ⟨hmidpoint.trans (add_zero _),
      hlength.trans ((Vec3.norm_neg _).trans (Vec3.norm_eq_one hx)), hsense⟩
  · rw [← (hcollapsed hzero).2.2]
    exact hweight_a
  · rw [← (hcollapsed hzero).2.2]
    exact hweight_b
  · obtain ⟨hmidpoint, -, -, -, d, hd, -, hparallel⟩ := hupright_pair hlong_z
    cases Option.some.inj hd
    exact ⟨hmidpoint.trans (zero_add _), hparallel⟩

end Goal

end Relaxation
