import Mathlib.Data.Real.Basic
import Relaxation.Proofs.Goal.Momentum
import Relaxation.Proofs.Solver.Lawful

/-!
# Goals that bring pairs to a length

The length wanted of a pair is a fixed one, the nearest one in a range, or the mean over all pairs. The
three kinds of goal find their corrections by rules of their own, which all scale the vector between
the two nodes to the length wanted, or leave the pair alone (`Aim.Corrects`). So in exact arithmetic a
single response, taken in full, brings each pair to its length and keeps its midpoint
(`Goal.Built.reaches_lengths`). Lengths that have become equal that way stay.
-/

namespace Relaxation

/-- The goals that bring the distance between the nodes of a pair to a length. -/
def GoalKind.OnLengths : GoalKind → Prop
  | .length | .clampLength | .equalLengths => True
  | _ => False

namespace Pairwise

/-! ## Distances -/

/-- The distances between the first two positions, between the next two and so on. -/
noncomputable def gaps (ps : List (Vec3 ℝ)) : List ℝ :=
  (List.range (ps.length / 2)).map fun k => (ps[2 * k + 1]?.getD 0 - ps[2 * k]?.getD 0).norm

/-- The mean of the distances within the pairs. -/
noncomputable def meanGap (ps : List (Vec3 ℝ)) : ℝ := (gaps ps).sum / (gaps ps).length

theorem gaps_eq (ps : List (Vec3 ℝ)) : gaps ps = (deltas ps).map Vec3.norm := by
  refine List.ext_getElem? fun k => ?_
  rw [gaps, deltas, List.getElem?_map, List.getElem?_map, List.getElem?_map]
  by_cases hk : k < ps.length / 2
  · have hfirst : 2 * k < ps.length := by omega
    have hlast : 2 * k + 1 < ps.length := by omega
    have hpair : (pairs ps)[k]? = some (ps[2 * k], ps[2 * k + 1]) :=
      getElem?_pairs_eq_some_iff.mpr
        ⟨List.getElem?_eq_getElem hfirst, List.getElem?_eq_getElem hlast⟩
    rw [hpair, List.getElem?_range hk, Option.map_some, Option.map_some, Option.map_some,
      List.getElem?_eq_getElem hfirst, List.getElem?_eq_getElem hlast]
    rfl
  · rw [List.getElem?_eq_none (by rw [List.length_range]; omega),
      List.getElem?_eq_none (by rw [length_pairs]; omega)]
    rfl

/-- The sum that the goal forms is that of the distances of its pairs. -/
theorem meanLength_eq_meanGap (ps : List (Vec3 ℝ)) : meanLength ps = meanGap ps := by
  rw [meanLength, meanGap, gaps_eq, Scalar.sum_real]

theorem meanGap_nonneg (ps : List (Vec3 ℝ)) : 0 ≤ meanGap ps := by
  refine div_nonneg (List.sum_nonneg fun d hd => ?_) (Nat.cast_nonneg _)
  obtain ⟨k, -, rfl⟩ := List.mem_map.mp hd
  exact Vec3.norm_nonneg _

/-! ## Moves in full -/

theorem sub_halves (a b correction : Vec3 ℝ) :
    b + -(correction * (0.5 : ℝ)) - (a + correction * (0.5 : ℝ)) = b - a - correction := by
  ext <;> simp only [Vec3.sub_x, Vec3.sub_y, Vec3.sub_z, Vec3.add_x, Vec3.add_y, Vec3.add_z,
    Vec3.neg_x, Vec3.neg_y, Vec3.neg_z, Vec3.mul_x, Vec3.mul_y, Vec3.mul_z,
    Scalar.ofScientific_real] <;> ring

/-- Moves in full change the vector between the nodes of a pair by its correction. -/
theorem deltas_moved (rule : Vec3 ℝ → Option (Vec3 ℝ)) (ps : List (Vec3 ℝ)) :
    deltas (ps.zipWith (· + ·) (respond rule ps).moves) =
      (deltas ps).map fun delta => delta - (rule delta).getD 0 := by
  induction ps using pairs.induct with
  | case1 a b rest ih =>
    have hmoves : (respond rule (a :: b :: rest)).moves =
        (Response.split (rule (b - a))).moves ++ (respond rule rest).moves := List.map_append
    rw [hmoves, Response.moves_split]
    exact congrArg₂ List.cons (sub_halves a b _) ih
  | case2 ps h =>
    match ps with
    | [] | [_] => rfl
    | a :: b :: rest => exact (h a b rest rfl).elim

/-- The two ends of a pair move by half of its correction each, and their weights agree. -/
theorem getElem?_moved_pair (rule : Vec3 ℝ → Option (Vec3 ℝ)) (weight : ℝ) {ps : List (Vec3 ℝ)}
    {k : Nat} {a b : Vec3 ℝ} (ha : ps[2 * k]? = some a) (hb : ps[2 * k + 1]? = some b) :
    let response := respond rule ps
    let moved := ps.zipWith (· + ·) response.moves
    let half := (rule (b - a)).getD 0 * (0.5 : ℝ)
    let w := if (rule (b - a)).isSome then weight else 0
    moved[2 * k]? = some (a + half) ∧ moved[2 * k + 1]? = some (b + -half) ∧
      response.moves[2 * k]? = some half ∧ response.moves[2 * k + 1]? = some (-half) ∧
      (response.weights weight)[2 * k]? = some w ∧
      (response.weights weight)[2 * k + 1]? = some w := by
  intro response moved half w
  have hcorrection : ((deltas ps).map rule)[k]? = some (rule (b - a)) := by
    rw [deltas, List.getElem?_map, List.getElem?_map, getElem?_pairs_eq_some_iff.mpr ⟨ha, hb⟩,
      Option.map_some, Option.map_some]
  obtain ⟨hmove_a, hmove_b, hweights⟩ := Response.getElem?_flatMap_split weight hcorrection
  rw [← respond_eq] at hmove_a hmove_b hweights
  exact ⟨List.getElem?_zipWith_eq_some.mpr ⟨_, _, ha, hmove_a, rfl⟩,
    List.getElem?_zipWith_eq_some.mpr ⟨_, _, hb, hmove_b, rfl⟩, hmove_a, hmove_b, hweights⟩

end Pairwise

/-! ## What the goals want -/

namespace Aim

/-- The length that an aim wants of a pair at distance `d` in a list of positions. -/
noncomputable def wantedLength (ps : List (Vec3 ℝ)) (d : ℝ) : Aim ℝ → ℝ
  | length rest => rest
  | clampLength lo hi => max lo (min hi d)
  | equalLengths => Pairwise.meanGap ps
  | _ => d

/-- A pair at distance `d` is left alone: it has no direction, or its distance is in range. -/
def Leaves (d : ℝ) (aim : Aim ℝ) : Prop :=
  d < 1e-12 ∨ ∃ lo hi, aim = clampLength lo hi ∧ lo ≤ d ∧ d ≤ hi

variable {aim : Aim ℝ} {ps : List (Vec3 ℝ)}

theorem wantedLength_nonneg (hkind : aim.kind.OnLengths) (hlawful : aim.Lawful) (d : ℝ) :
    0 ≤ aim.wantedLength ps d := by
  cases aim with
  | length rest => exact hlawful.2
  | clampLength lo hi => exact hlawful.2.1.trans (le_max_left _ _)
  | equalLengths => exact Pairwise.meanGap_nonneg ps
  | _ => cases hkind

/-- What a goal leaves alone has the length that is wanted. -/
theorem wantedLength_of_leaves {d : ℝ} (h : aim.Leaves d) (hd : 1e-12 ≤ d) :
    aim.wantedLength ps d = d := by
  obtain hshort | ⟨lo, hi, rfl, hlo, hhi⟩ := h
  · exact absurd hd hshort.not_ge
  · rw [wantedLength, min_eq_right hhi, max_eq_right hlo]

/-- The rule scales the vector between the nodes of a pair to the length that the aim wants of it, and
says nothing where the aim leaves the pair alone. -/
structure Corrects (aim : Aim ℝ) (ps : List (Vec3 ℝ)) (rule : Vec3 ℝ → Option (Vec3 ℝ)) : Prop where
  leaves : ∀ delta, aim.Leaves delta.norm → rule delta = none
  scales : ∀ delta, ¬aim.Leaves delta.norm →
    rule delta = some (delta * (1 - aim.wantedLength ps delta.norm / delta.norm))

theorem corrects_toLength (target : ℝ)
    (hleaves : ∀ d, aim.Leaves d ↔ d < 1e-12) (hwanted : ∀ d, aim.wantedLength ps d = target) :
    aim.Corrects ps (Pairwise.toLength target) where
  leaves delta h := if_pos ((hleaves _).mp h)
  scales delta h := by
    rw [hwanted]
    exact if_neg (mt (hleaves _).mpr h)

theorem clamp_eq_max_min {lo hi : ℝ} (horder : lo ≤ hi) (d : ℝ) :
    Scalar.clamp d lo hi = max lo (min hi d) := by
  rw [Scalar.clamp_real, max_min_distrib_left, max_eq_right horder, min_comm, max_comm d]

theorem clamp_eq_self_iff {lo hi d : ℝ} (horder : lo ≤ hi) :
    Scalar.clamp d lo hi = d ↔ lo ≤ d ∧ d ≤ hi := by
  constructor
  · intro heq
    rw [← heq, clamp_eq_max_min horder]
    exact ⟨le_max_left _ _, max_le horder (min_le_left _ _)⟩
  · rintro ⟨hlo, hhi⟩
    rw [clamp_eq_max_min horder, min_eq_right hhi, max_eq_right hlo]

/-- Pairs inside the range are left alone, others are brought to its nearest end. -/
theorem corrects_intoRange {lo hi : ℝ} (horder : lo ≤ hi) :
    (clampLength lo hi).Corrects ps (Pairwise.intoRange lo hi) where
  leaves delta h := by
    unfold Pairwise.intoRange Pairwise.toLength
    dsimp only
    obtain hshort | ⟨_, _, heq, hrange⟩ := h
    · rw [if_pos hshort, ite_self]
    · cases heq
      exact if_pos (Scalar.beq_real_iff.mpr ((clamp_eq_self_iff horder).mpr hrange))
  scales delta h := by
    obtain ⟨hlong, houtside⟩ := not_or.mp h
    unfold Pairwise.intoRange Pairwise.toLength
    dsimp only
    rw [if_neg hlong, if_neg fun hinside => houtside
      ⟨lo, hi, rfl, (clamp_eq_self_iff horder).mp (Scalar.beq_real_iff.mp hinside)⟩,
      clamp_eq_max_min horder]
    rfl

/-- Each of the goals corrects its pairs by its own rule. -/
theorem exists_respond_eq (hkind : aim.kind.OnLengths) (hlawful : aim.Lawful) {n : Nat}
    (hfits : aim.Fits n) (hps : ps.length = n) :
    ∃ rule, aim.respond n ps = Pairwise.respond rule ps ∧ aim.Corrects ps rule := by
  have htake : ps.take n = ps := List.take_of_length_le hps.le
  cases aim with
  | length rest =>
    cases hfits
    refine ⟨_, by rw [respond, htake], corrects_toLength rest (fun d => ?_) fun d => rfl⟩
    exact or_iff_left (by rintro ⟨lo, hi, h, -⟩; cases h)
  | clampLength lo hi =>
    cases hfits
    exact ⟨_, by rw [respond, htake], corrects_intoRange hlawful.2.2⟩
  | equalLengths =>
    refine ⟨_, by rw [respond, htake], corrects_toLength _ (fun d => ?_) fun d => ?_⟩
    · exact or_iff_left (by rintro ⟨lo, hi, h, -⟩; cases h)
    · exact (Pairwise.meanLength_eq_meanGap ps).symm
  | _ => cases hkind

/-- A pair whose vector has a direction is brought to the length wanted of it. -/
theorem Corrects.norm_sub {rule : Vec3 ℝ → Option (Vec3 ℝ)} (h : aim.Corrects ps rule)
    (hkind : aim.kind.OnLengths) (hlawful : aim.Lawful) {delta : Vec3 ℝ}
    (hlong : 1e-12 ≤ delta.norm) :
    (delta - (rule delta).getD 0).norm = aim.wantedLength ps delta.norm := by
  by_cases hleaves : aim.Leaves delta.norm
  · rw [h.leaves delta hleaves, Option.getD_none, sub_zero, wantedLength_of_leaves hleaves hlong]
  · have hpos : 0 < delta.norm := lt_of_lt_of_le (by norm_num) hlong
    have hscaled : delta - delta * (1 - aim.wantedLength ps delta.norm / delta.norm) =
        delta * (aim.wantedLength ps delta.norm / delta.norm) := by
      rw [Vec3.mul_real, Vec3.mul_real, sub_smul, one_smul, sub_sub_cancel]
    rw [h.scales delta hleaves, Option.getD_some, hscaled, Vec3.norm_mul,
      abs_of_nonneg (div_nonneg (wantedLength_nonneg hkind hlawful _) hpos.le),
      mul_div_cancel₀ _ hpos.ne']

theorem Corrects.isSome_iff {rule : Vec3 ℝ → Option (Vec3 ℝ)} (h : aim.Corrects ps rule)
    (delta : Vec3 ℝ) : (rule delta).isSome ↔ ¬aim.Leaves delta.norm := by
  by_cases hleaves : aim.Leaves delta.norm
  · simp [h.leaves delta hleaves, hleaves]
  · simp [h.scales delta hleaves, hleaves]

/-- A pair keeps its midpoint and comes to the length wanted of it. -/
theorem Corrects.exists_pair {rule : Vec3 ℝ → Option (Vec3 ℝ)} (h : aim.Corrects ps rule)
    (hkind : aim.kind.OnLengths) (hlawful : aim.Lawful) {weight : ℝ} {k : Nat} {a b : Vec3 ℝ}
    (ha : ps[2 * k]? = some a) (hb : ps[2 * k + 1]? = some b) :
    let response := Pairwise.respond rule ps
    let moved := ps.zipWith (· + ·) response.moves
    ∃ (a' b' : Vec3 ℝ) (w : ℝ), moved[2 * k]? = some a' ∧ moved[2 * k + 1]? = some b' ∧
      a' + b' = a + b ∧
      ((1e-12 : ℝ) ≤ (b - a).norm → (b' - a').norm = aim.wantedLength ps (b - a).norm) ∧
      (response.weights weight)[2 * k]? = some w ∧
      (response.weights weight)[2 * k + 1]? = some w ∧
      (0 < weight → (w = 0 ↔ aim.Leaves (b - a).norm)) := by
  intro response moved
  obtain ⟨ha', hb', -, -, hweight_a, hweight_b⟩ := Pairwise.getElem?_moved_pair rule weight ha hb
  refine ⟨_, _, _, ha', hb', ?_, fun hlong => ?_, hweight_a, hweight_b, fun hpos => ?_⟩
  · abel
  · rw [Pairwise.sub_halves, h.norm_sub hkind hlawful hlong]
  · rw [ite_eq_right_iff, h.isSome_iff]
    exact ⟨fun himp => by_contra fun hleaves => hpos.ne' (himp hleaves),
      fun hleaves hnot => absurd hleaves hnot⟩

end Aim

/-! ## Equal lengths -/

namespace Pairwise

section Equalized

variable {rule : Vec3 ℝ → Option (Vec3 ℝ)} {ps : List (Vec3 ℝ)}
  (h : ∀ delta ∈ deltas ps, (delta - (rule delta).getD 0).norm = meanGap ps)

include h

/-- With full moves each pair has the mean distance. -/
theorem gaps_moved : gaps (ps.zipWith (· + ·) (respond rule ps).moves) =
    List.replicate (gaps ps).length (meanGap ps) := by
  have hconst : ∀ delta ∈ deltas ps,
      (Vec3.norm ∘ fun delta => delta - (rule delta).getD 0) delta = meanGap ps := h
  rw [gaps_eq, deltas_moved, List.map_map, List.map_congr_left hconst, List.map_const', gaps_eq,
    List.length_map]

/-- The mean survives the moves, so a second response has the same target. -/
theorem meanGap_moved :
    meanGap (ps.zipWith (· + ·) (respond rule ps).moves) = meanGap ps := by
  rcases eq_or_ne (gaps ps) [] with hnil | hne
  · rw [meanGap, gaps_moved h, meanGap, hnil]
    rfl
  · have hcount : ((gaps ps).length : ℝ) ≠ 0 :=
      Nat.cast_ne_zero.mpr (List.length_eq_zero_iff.not.mpr hne)
    conv_lhs => rw [meanGap]
    rw [gaps_moved h, List.sum_replicate, List.length_replicate, nsmul_eq_mul,
      mul_div_cancel_left₀ _ hcount]

theorem eq_meanGap_of_mem_gaps_moved :
    ∀ d ∈ gaps (ps.zipWith (· + ·) (respond rule ps).moves),
      d = meanGap (ps.zipWith (· + ·) (respond rule ps).moves) := by
  intro d hd
  rw [gaps_moved h] at hd
  rw [meanGap_moved h]
  exact List.eq_of_mem_replicate hd

end Equalized

/-- Pairs that all have the mean length are not moved. -/
theorem moves_eq_zero_of_equal {ps : List (Vec3 ℝ)} (h : ∀ d ∈ gaps ps, d = meanLength ps) :
    ∀ m ∈ (respond (toLength (meanLength ps)) ps).moves, m = 0 := by
  intro m hm
  obtain ⟨move, hmove, rfl⟩ := List.mem_map.mp hm
  obtain ⟨delta, hdelta, hmove⟩ := List.mem_flatMap.mp hmove
  have hcorrection : (toLength (meanLength ps) delta).getD 0 = 0 := by
    unfold toLength
    split
    case isTrue => rfl
    case isFalse hlong =>
      have hne := Vec3.norm_ne_zero_of_not_lt (by norm_num) hlong
      rw [gaps_eq] at h
      rw [h _ (List.mem_map_of_mem hdelta)] at hne ⊢
      rw [Option.getD_some, div_self hne, sub_self, Vec3.mul_real, zero_smul]
  have hmem : move.getD 0 ∈ (Response.split (toLength (meanLength ps) delta)).moves :=
    List.mem_map_of_mem hmove
  rw [Response.moves_split, hcorrection, Vec3.mul_real, smul_zero, neg_zero] at hmem
  simpa using hmem

end Pairwise

/-! ## The goals -/

namespace Goal

/-- A goal for equal lengths is at rest where they are equal. -/
theorem Sound.moves_eq_zero_of_equal {g : Goal ℝ} (h : g.Sound) (haim : g.aim = .equalLengths)
    {pool : Pool ℝ} (hnodes : g.nodes.length = g.nodeCount)
    (hequal : ∀ d ∈ Pairwise.gaps (g.positions pool), d = Pairwise.meanGap (g.positions pool)) :
    ∀ m ∈ (g.compute pool).moves, m = 0 := by
  have hcount : (g.positions pool).length = g.nodeCount := (List.length_map ..).trans hnodes
  rw [h.compute_eq hnodes, haim]
  dsimp only [Aim.respond]
  rw [List.take_of_length_le hcount.le]
  refine Pairwise.moves_eq_zero_of_equal fun d hd => ?_
  rw [Pairwise.meanLength_eq_meanGap]
  exact hequal d hd

/-- On any nodes, whatever it responded before, a goal for lengths keeps the midpoint of every pair and
brings those that have a direction to the length wanted. Only pairs that are left alone have no
weight. If it is the mean length and every segment has a direction, the mean stays, and wherever the
nodes are found at the new positions, nothing is left to be moved. -/
theorem Built.reaches_lengths {g : Goal ℝ} (hg : g.Built) (hkind : g.kind.OnLengths)
    (pool : Pool ℝ) {nodes : List Nat} (hnodes : nodes.length = g.nodeCount)
    {moves : List (Vec3 ℝ)} (hmoves : moves.length = g.nodeCount) {weights : List ℝ}
    (hweights : weights.length = g.nodeCount) :
    let after := ({ g with nodes, moves, weights } : Goal ℝ).compute pool
    let before := pool.positions nodes
    let moved := before.zipWith (· + ·) after.moves
    (∀ (k : Nat) (a b : Vec3 ℝ), before[2 * k]? = some a → before[2 * k + 1]? = some b →
      ∃ (a' b' : Vec3 ℝ) (w : ℝ), moved[2 * k]? = some a' ∧ moved[2 * k + 1]? = some b' ∧
        a' + b' = a + b ∧
        (1e-12 ≤ (b - a).norm → (b' - a').norm = g.aim.wantedLength before (b - a).norm) ∧
        after.weights[2 * k]? = some w ∧ after.weights[2 * k + 1]? = some w ∧
        (0 < g.weight → (w = 0 ↔ g.aim.Leaves (b - a).norm))) ∧
    (g.aim = .equalLengths → (∀ d ∈ Pairwise.gaps before, 1e-12 ≤ d) →
      Pairwise.meanGap moved = Pairwise.meanGap before ∧
        ∀ (pool' : Pool ℝ) (nodes' : List Nat), pool'.positions nodes' = moved →
          ∀ m ∈ (({ after with nodes := nodes' } : Goal ℝ).compute pool').moves, m = 0) := by
  intro after before moved
  have hsound := hg.sound.placed nodes hmoves hweights
  have hcount : before.length = g.nodeCount := (List.length_map ..).trans hnodes
  have hlawful := hg.lawful.aim_lawful
  obtain ⟨rule, hrespond, hcorrects⟩ :=
    Aim.exists_respond_eq hkind hlawful hg.sound.fits hcount
  have hafter : after = { g with
      nodes
      moves := (Pairwise.respond rule before).moves
      weights := (Pairwise.respond rule before).weights g.weight } := by
    rw [← hrespond]
    exact hsound.compute_eq hnodes pool
  have hafter_moves : after.moves = (Pairwise.respond rule before).moves := by rw [hafter]
  have hafter_weights : after.weights = (Pairwise.respond rule before).weights g.weight := by
    rw [hafter]
  have hmoved : moved = before.zipWith (· + ·) (Pairwise.respond rule before).moves :=
    congrArg _ hafter_moves
  refine ⟨fun k a b ha hb => ?_, fun haim hlong => ?_⟩
  · rw [hmoved, hafter_weights]
    exact hcorrects.exists_pair hkind hlawful ha hb
  have hmean : ∀ delta ∈ Pairwise.deltas before,
      (delta - (rule delta).getD 0).norm = Pairwise.meanGap before := by
    intro delta hdelta
    rw [Pairwise.gaps_eq] at hlong
    rw [hcorrects.norm_sub hkind hlawful (hlong _ (List.mem_map_of_mem hdelta)), haim]
    rfl
  refine ⟨hmoved ▸ Pairwise.meanGap_moved hmean, fun pool' nodes' hpositions => ?_⟩
  have hlength : after.moves.length = g.nodeCount := (length_overwrite ..).trans hmoves
  have hsound' : ({ after with nodes := nodes' } : Goal ℝ).Sound :=
    hg.sound.placed nodes' hlength ((length_overwrite ..).trans hweights)
  have hpositions_length : (pool'.positions nodes').length = nodes'.length := List.length_map ..
  have hnodes' : nodes'.length = g.nodeCount := by
    rw [← hpositions_length, hpositions, List.length_zipWith, hcount, hlength, Nat.min_self]
  refine hsound'.moves_eq_zero_of_equal haim hnodes' ?_
  change ∀ d ∈ Pairwise.gaps (pool'.positions nodes'),
    d = Pairwise.meanGap (pool'.positions nodes')
  rw [hpositions, hmoved]
  exact Pairwise.eq_meanGap_of_mem_gaps_moved hmean

/-- Segments of lengths one and three from the same node, both brought to two. -/
theorem Built.reaches_lengths_uneven :
    let g : Goal ℝ := ofAim .equalLengths [0, Vec3.xAxis, 0, (Vec3.zAxis : Vec3 ℝ) * (3 : ℝ)] 1
    let pool : Pool ℝ := #[.atRest 0, .atRest Vec3.xAxis, .atRest ((Vec3.zAxis : Vec3 ℝ) * (3 : ℝ))]
    let after := ({ g with nodes := [0, 1, 0, 2] } : Goal ℝ).compute pool
    let moved := (pool.positions [0, 1, 0, 2]).zipWith (· + ·) after.moves
    (g.Built ∧ g.kind.OnLengths) ∧
      (∃ a b : Vec3 ℝ, moved[0]? = some a ∧ moved[1]? = some b ∧ a + b = Vec3.xAxis ∧
        (b - a).norm = 2) ∧
      Pairwise.meanGap moved = 2 ∧
      ∀ (pool' : Pool ℝ) (nodes' : List Nat), pool'.positions nodes' = moved →
        ∀ m ∈ (({ after with nodes := nodes' } : Goal ℝ).compute pool').moves, m = 0 := by
  intro g pool after moved
  have hmade : equalLengths [0, Vec3.xAxis, 0, (Vec3.zAxis : Vec3 ℝ) * (3 : ℝ)] 1 = .ok g :=
    equalLengths_eq_ok_iff.mpr ⟨⟨List.cons_ne_nil _ _, rfl⟩, usable_real_iff.mpr zero_le_one, rfl⟩
  have hbuilt : g.Built := .made (.equalLengths hmade) (.of_shapeless rfl)
  have hone : ((Vec3.xAxis : Vec3 ℝ) - 0).norm = 1 := by
    simp [Vec3.norm, Vec3.normSq, Vec3.dot, Vec3.xAxis]
  have hthree : ((Vec3.zAxis : Vec3 ℝ) * (3 : ℝ) - 0).norm = 3 := by
    rw [sub_zero, Vec3.norm_mul, abs_of_pos three_pos]
    simp [Vec3.norm, Vec3.normSq, Vec3.dot, Vec3.zAxis]
  have hgaps : Pairwise.gaps (pool.positions [0, 1, 0, 2]) = [1, 3] := by
    rw [Pairwise.gaps_eq, ← hone, ← hthree]
    rfl
  have hmean : Pairwise.meanGap (pool.positions [0, 1, 0, 2]) = 2 := by
    rw [Pairwise.meanGap, hgaps]
    norm_num
  have hnodes : [0, 1, 0, 2].length = g.nodeCount := rfl
  obtain ⟨hpairs, hequal⟩ := hbuilt.reaches_lengths trivial pool hnodes hbuilt.sound.moves_length
    hbuilt.sound.weights_length
  obtain ⟨a, b, _, ha, hb, hmidpoint, hlength, _⟩ := hpairs 0 0 Vec3.xAxis rfl rfl
  have hlong : ∀ d ∈ Pairwise.gaps (pool.positions [0, 1, 0, 2]), (1e-12 : ℝ) ≤ d := by
    rw [hgaps]
    norm_num
  obtain ⟨hkept, hstays⟩ := hequal rfl hlong
  refine ⟨⟨hbuilt, trivial⟩, ⟨a, b, ha, hb, ?_, ?_⟩, hkept.trans hmean, hstays⟩
  · rw [hmidpoint, zero_add]
  · rw [hlength (by rw [hone]; norm_num)]
    exact hmean

end Goal
end Relaxation
