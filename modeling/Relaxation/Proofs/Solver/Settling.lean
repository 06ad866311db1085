import Mathlib.Tactic.Linarith
import Mathlib.Tactic.Ring
import Relaxation.Proofs.Solver.Execute
import Relaxation.Proofs.Solver.Independence
import Relaxation.Proofs.Solver.Pairs

/-!
# Two nodes at a distance

Two nodes that a goal keeps at a distance swing about their midpoint along the line on which they
start, so their motion is that of a number, the distance with a sign, and its rate (`Swing.next`).
With momentum they may overshoot and change places, or come so close that the goal lets them pass for
one iteration. From rest they have come to rest at the right distance after four iterations, however
far apart they start and whatever the damping (`Solver.OneLength.settles_in_four`): a move that takes
the number to its place on the side on which it is cancels the rate, and the sides change only once.
-/

namespace Relaxation

/-! ## Motion on a line -/

/-- The distance of two nodes, negative when they have changed places, and what it grows by. -/
structure Swing where
  gap : ℝ
  rate : ℝ

namespace Swing

section

variable (tolerance damping rest : ℝ)

/-- The number after it has drifted and been moved to `rest` on the side on which it then is, unless
it is too small. -/
noncomputable def next (x : Swing) : Swing :=
  let gap := x.gap + x.rate
  if |gap| < tolerance then ⟨gap, x.rate⟩
  else
    let move := gap * (rest / |gap|) - gap
    ⟨gap + move, if x.rate * move < 0 then (x.rate + move) * damping else x.rate + move⟩

/-- At rest at the right distance. -/
def Settled (x : Swing) : Prop := |x.gap| = rest ∧ x.rate = 0

end

variable {tolerance damping rest : ℝ} {x : Swing}

theorem next_near (h : |x.gap + x.rate| < tolerance) :
    x.next tolerance damping rest = ⟨x.gap + x.rate, x.rate⟩ := if_pos h

/-- A move to a place `p` cancels what the drift has added, so the rate that remains is the way from
where the number was before, damped or not. -/
theorem exists_next_eq {p : ℝ} (hfar : tolerance ≤ |x.gap + x.rate|)
    (hp : (x.gap + x.rate) * (rest / |x.gap + x.rate|) = p) :
    ∃ t, (t = 1 ∨ t = damping) ∧ x.next tolerance damping rest = ⟨p, (p - x.gap) * t⟩ := by
  unfold next
  dsimp only
  rw [if_neg hfar.not_gt, hp]
  split
  · exact ⟨damping, .inr rfl, by congr 1 <;> ring⟩
  · exact ⟨1, .inl rfl, by congr 1 <;> ring⟩

theorem place_of_pos {h : ℝ} (hpos : 0 < h) : h * (rest / |h|) = rest := by
  rw [abs_of_pos hpos]
  field_simp

theorem place_of_neg {h : ℝ} (hneg : h < 0) : h * (rest / |h|) = -rest := by
  have hne := hneg.ne
  rw [abs_of_neg hneg]
  field_simp

/-- On its own side the number is moved back to the place that it came from. -/
theorem returns (hgap : |x.gap| = rest) (hside : 0 < x.gap * (x.gap + x.rate))
    (hfar : tolerance ≤ |x.gap + x.rate|) : (x.next tolerance damping rest).Settled rest := by
  have hplace : (x.gap + x.rate) * (rest / |x.gap + x.rate|) = x.gap := by
    obtain ⟨hpos, hpos'⟩ | ⟨hneg, hneg'⟩ := mul_pos_iff.mp hside
    · rw [place_of_pos hpos', ← hgap, abs_of_pos hpos]
    · rw [place_of_neg hneg', ← hgap, abs_of_neg hneg, neg_neg]
  obtain ⟨t, _, hnext⟩ := exists_next_eq hfar hplace
  rw [hnext]
  exact ⟨hgap, by rw [sub_self, zero_mul]⟩

section

variable (htolerance : 0 < tolerance) (hrest : 3 * tolerance ≤ rest) (hdamping : 0 ≤ damping)

include htolerance hrest

theorem Settled.next (h : x.Settled rest) : (x.next tolerance damping rest).Settled rest := by
  obtain ⟨hgap, hrate⟩ := h
  have hne : x.gap ≠ 0 := by
    intro hzero
    rw [hzero, abs_zero] at hgap
    linarith
  refine returns hgap ?_ ?_
  · rw [hrate, add_zero]
    exact mul_self_pos.mpr hne
  · rw [hrate, add_zero, hgap]
    linarith

theorem Settled.repeat_of_le {j k : Nat} (hjk : j ≤ k)
    (h : (Nat.repeat (Swing.next tolerance damping rest) j x).Settled rest) :
    (Nat.repeat (Swing.next tolerance damping rest) k x).Settled rest := by
  induction k, hjk using Nat.le_induction with
  | base => exact h
  | succ k _ ih => exact ih.next htolerance hrest

include hdamping

/-- Having changed its side, the number keeps to the new one. -/
theorem settles_across (hgap : -rest ≤ x.gap) (hbelow : x.gap + x.rate < 0)
    (hfar : tolerance ≤ |x.gap + x.rate|) :
    ((x.next tolerance damping rest).next tolerance damping rest).Settled rest := by
  obtain ⟨t, ht, hnext⟩ := exists_next_eq hfar (place_of_neg hbelow)
  have ht : 0 ≤ t := ht.elim (· ▸ zero_le_one) (· ▸ hdamping)
  have hrate : (-rest - x.gap) * t ≤ 0 := mul_nonpos_of_nonpos_of_nonneg (by linarith) ht
  have hneg : -rest + (-rest - x.gap) * t < 0 := by linarith
  rw [hnext]
  refine returns ?_ ?_ ?_
  · rw [abs_neg, abs_of_pos (by linarith)]
  · exact mul_pos_of_neg_of_neg (by linarith) hneg
  · dsimp only
    rw [abs_of_neg hneg]
    linarith

/-- From the right distance at any rate the number settles in three steps: it may change its side in the
first, or come close to zero in the first and change its side in the second. -/
theorem settles_in_three (hgap : x.gap = rest) {k : Nat} (hk : 3 ≤ k) :
    (Nat.repeat (Swing.next tolerance damping rest) k x).Settled rest := by
  by_cases hnear : |x.gap + x.rate| < tolerance
  · -- Let pass at its rate, the number is far on the other side when it has drifted once more.
    refine Settled.repeat_of_le htolerance hrest hk ?_
    obtain ⟨hlower, hupper⟩ := abs_lt.mp hnear
    have hbelow : x.gap + x.rate + x.rate < 0 := by linarith
    have hfar : tolerance ≤ |x.gap + x.rate + x.rate| := by
      rw [abs_of_neg hbelow]
      linarith
    have hside : -rest ≤ x.gap + x.rate := by linarith
    have hafter := settles_across (x := ⟨x.gap + x.rate, x.rate⟩) htolerance hrest hdamping hside
      hbelow hfar
    rwa [← next_near hnear] at hafter
  · have hfar := not_lt.mp hnear
    rcases lt_trichotomy (x.gap + x.rate) 0 with hneg | hzero | hpos
    · have hafter := settles_across htolerance hrest hdamping (by linarith) hneg hfar
      exact Settled.repeat_of_le htolerance hrest (by omega : 2 ≤ k) hafter
    · rw [hzero, abs_zero] at hfar
      linarith
    · have hplace : |x.gap| = rest := by rw [hgap, abs_of_pos (by linarith)]
      have hafter : (x.next tolerance damping rest).Settled rest :=
        returns hplace (mul_pos (by linarith) hpos) hfar
      exact Settled.repeat_of_le htolerance hrest (by omega : 1 ≤ k) hafter

/-- The first step takes the number to the right distance, at some rate. -/
theorem settles_from_rest {d : ℝ} (hd : tolerance ≤ d) {k : Nat} (hk : 4 ≤ k) :
    (Nat.repeat (Swing.next tolerance damping rest) k ⟨d, 0⟩).Settled rest := by
  have hpos : 0 < d + 0 := by linarith
  have hfar : tolerance ≤ |d + 0| := by
    rw [abs_of_pos hpos]
    linarith
  obtain ⟨t, _, hnext⟩ := exists_next_eq (x := ⟨d, 0⟩) hfar (place_of_pos hpos)
  obtain ⟨k, rfl⟩ : ∃ l, k = l + 1 := ⟨k - 1, by omega⟩
  rw [repeat_succ', hnext]
  exact settles_in_three htolerance hrest hdamping rfl (Nat.le_of_succ_le_succ hk)

end

end Swing

/-! ## Nodes on a line -/

namespace Node

/-- On the line through `c` along `u`, at `h` from `c` and with the velocity `r`. -/
structure Along (u c : Vec3 ℝ) (h r : ℝ) (n : Node ℝ) : Prop where
  position_eq : n.position = c + u * h
  velocity_eq : n.velocity = u * r

variable {u c : Vec3 ℝ} {h r : ℝ} {n : Node ℝ} {params : Params ℝ}

theorem Along.drift (hn : n.Along u c h r) : n.drift.Along u c (h + r) r where
  position_eq := by
    rw [Node.drift, hn.position_eq, hn.velocity_eq, Vec3.mul_real, Vec3.mul_real, Vec3.mul_real,
      add_smul, add_assoc]
  velocity_eq := hn.velocity_eq

/-- The vector to a node from the one opposite. -/
theorem Along.position_sub {m : Node ℝ} {r' : ℝ} (hm : m.Along u c h r) (hn : n.Along (-u) c h r') :
    m.position - n.position = u * (2 * h) := by
  rw [hm.position_eq, hn.position_eq, Vec3.mul_real, Vec3.mul_real, Vec3.mul_real, smul_neg,
    add_sub_add_left_eq_sub, sub_neg_eq_add, ← add_smul, ← two_mul]

theorem Along.norm_position_sub {m : Node ℝ} {r' : ℝ} (hm : m.Along u c h r)
    (hn : n.Along (-u) c h r') (hu : 2 * u.norm = 1) : (m.position - n.position).norm = |h| := by
  rw [hm.position_sub hn, Vec3.norm_mul, abs_mul, abs_two, ← mul_assoc, mul_comm u.norm, hu, one_mul]

theorem Along.iterate_unasked (hn : n.Along u c h r) (hmomentum : params.momentum = true)
    (move : Vec3 ℝ) : (n.iterate params [⟨move, 0⟩]).Along u c (h + r) r := by
  have hzero : (Tally.zero.addAll [⟨move, 0⟩] : Tally ℝ).weight = 0 := add_zero 0
  rw [iterate, if_pos hmomentum, Node.move, hzero, if_pos (Scalar.beq_real_iff.mpr rfl),
    if_pos hmomentum]
  exact hn.drift

theorem Along.iterate_asked (hn : n.Along u c h r) (hmomentum : params.momentum = true)
    (hu : 0 < u.normSq) {weight : ℝ} (hweight : weight ≠ 0) (move : ℝ) :
    (n.iterate params [⟨u * move, weight⟩]).Along u c (h + r + move)
      (if r * move < 0 then (r + move) * params.damping else r + move) := by
  have htotal : (Tally.zero.addAll [⟨u * move, weight⟩] : Tally ℝ).weight = weight := zero_add _
  have hstep : (Tally.zero.addAll [⟨u * move, weight⟩] : Tally ℝ).move / weight = u * move := by
    change (0 + u * move * weight) / weight = u * move
    rw [zero_add, Vec3.div_real, Vec3.mul_real _ weight, inv_smul_smul₀ hweight]
  have hdot : (u * r).dot (u * move) = u.normSq * (r * move) := by
    rw [Vec3.dot_mul, Vec3.dot_comm, Vec3.dot_mul, mul_assoc]
    rfl
  have hopposing : (u * r).dot (u * move) < 0 ↔ r * move < 0 := by
    rw [hdot, ← neg_pos, ← mul_neg, mul_pos_iff_of_pos_left hu, neg_pos]
  have hne : ¬(weight == 0) = true := mt Scalar.beq_real_iff.mp hweight
  have hdrift := hn.drift
  rw [iterate, if_pos hmomentum, Node.move, htotal, if_neg hne]
  dsimp only
  rw [hstep, if_pos hmomentum, hdrift.velocity_eq, if_congr hopposing rfl rfl]
  constructor
  · dsimp only
    rw [hdrift.position_eq, Vec3.mul_real, Vec3.mul_real, Vec3.mul_real, add_smul _ move, add_assoc]
  · have hsum : u * r + u * move = u * (r + move) := (add_smul r move u).symm
    dsimp only
    rw [hsum]
    split
    · rw [Vec3.mul_real, Vec3.mul_real, Vec3.mul_real, smul_smul, mul_comm]
    · rfl

end Node

namespace Solver

/-! ## One goal on two nodes -/

/-- With momentum on, a goal keeps two nodes at a distance and there is no other goal. -/
structure OneLength (rest : ℝ) (i j : Nat) (s : Solver ℝ) : Prop where
  wellFormed : s.WellFormed
  momentum : s.params.momentum = true
  goal : ∃ g, s.goals = #[g] ∧ g.aim = .length rest ∧ g.nodes = [i, j] ∧ 0 < g.weight
  ne : i ≠ j

variable {s : Solver ℝ} {rest : ℝ} {i j : Nat} {u c : Vec3 ℝ} {x : Swing}

theorem goals_computed_of_only {g : Goal ℝ} (hgoals : s.goals = #[g]) :
    s.computed.goals = #[g.compute s.computed.nodes] := by
  rw [goals_computed, hgoals, List.map_toArray, List.map_singleton]

/-- The slots of the only goal are all that its two nodes are asked by. -/
theorem WellFormed.requests_of_only (h : s.WellFormed) {g : Goal ℝ} (hgoals : s.goals = #[g])
    (hnodes : g.nodes = [i, j]) (hne : i ≠ j) (hpull : ∀ k, s.pullRequest k = none)
    {move : Vec3 ℝ} {weight : ℝ} (hmoves : g.moves = [move, -move])
    (hweights : g.weights = [weight, weight]) :
    s.requests i = [⟨move, weight⟩] ∧ s.requests j = [⟨-move, weight⟩] := by
  have hmem := hgoals ▸ Array.mem_singleton_self g
  have hnodup : (s.goals.toList.flatMap Goal.nodes).Nodup := by
    rw [hgoals, List.flatMap_singleton, hnodes]
    exact List.nodup_cons.mpr ⟨mt List.mem_singleton.mp hne, List.nodup_singleton j⟩
  constructor
  · exact h.requests_eq_singleton hnodup hmem (congrArg (·[0]?) hnodes) (congrArg (·[0]?) hmoves)
      (congrArg (·[0]?) hweights) (hpull i)
  · exact h.requests_eq_singleton hnodup hmem (congrArg (·[1]?) hnodes) (congrArg (·[1]?) hmoves)
      (congrArg (·[1]?) hweights) (hpull j)

theorem OneLength.iterate (h : s.OneLength rest i j) : s.iterate.OneLength rest i j where
  wellFormed := h.wellFormed.iterate
  momentum := (congrArg Params.momentum (params_iterateN s 1)).trans h.momentum
  goal := by
    obtain ⟨g, hgoals, haim, hnodes, hweight⟩ := h.goal
    exact ⟨g.compute s.computed.nodes, goals_computed_of_only hgoals, haim, hnodes, hweight⟩
  ne := h.ne

theorem OneLength.iterateN (h : s.OneLength rest i j) (n : Nat) :
    (s.iterateN n).OneLength rest i j := by
  induction n with
  | zero => exact h
  | succ n ih => exact ih.iterate

/-- What the goal asks of the two nodes, by the vector from the one to the other. -/
theorem OneLength.requests (h : s.OneLength rest i j) (hpull : s.Unpulled) :
    let delta := s.computed.nodes.position j - s.computed.nodes.position i
    ∃ move weight, s.computed.requests i = [⟨move, weight⟩] ∧
      s.computed.requests j = [⟨-move, weight⟩] ∧
      (delta.norm < 1e-12 ∧ weight = 0 ∨
        ¬delta.norm < 1e-12 ∧ 0 < weight ∧
          move = delta * (1 - rest / delta.norm) * (0.5 : ℝ)) := by
  intro delta
  obtain ⟨g, hgoals, haim, hnodes, hweight⟩ := h.goal
  have hattached := h.wellFormed.goals_attached g (hgoals ▸ Array.mem_singleton_self g)
  have hresponse : g.aim.respond g.nodeCount (g.positions s.computed.nodes) =
      Response.split (Pairwise.toLength rest delta) := by
    rw [haim, Goal.positions, hnodes]
    exact List.append_nil _
  have hcompute := hattached.toSound.compute_eq hattached.nodes_length s.computed.nodes
  rw [hresponse] at hcompute
  have honly := goals_computed_of_only hgoals
  rw [Pairwise.toLength] at hcompute
  split at hcompute
  case isTrue hnear =>
    have hmoves : (g.compute s.computed.nodes).moves = [0, -0] := by
      rw [hcompute, neg_zero]
      rfl
    obtain ⟨hi, hj⟩ := h.wellFormed.computed.requests_of_only honly hnodes h.ne hpull hmoves
      (congrArg Goal.weights hcompute)
    exact ⟨0, 0, hi, hj, .inl ⟨hnear, rfl⟩⟩
  case isFalse hfar =>
    obtain ⟨hi, hj⟩ := h.wellFormed.computed.requests_of_only honly hnodes h.ne hpull
      (congrArg Goal.moves hcompute) (congrArg Goal.weights hcompute)
    exact ⟨_, _, hi, hj, .inr ⟨hfar, hweight, rfl⟩⟩

/-- The two nodes stand opposite each other about `c` on a line along `u`, which is half as long as a
unit. -/
def Swings (u c : Vec3 ℝ) (i j : Nat) (x : Swing) (s : Solver ℝ) : Prop :=
  ∃ n m, s.nodes[i]? = some n ∧ s.nodes[j]? = some m ∧
    n.Along (-u) c x.gap x.rate ∧ m.Along u c x.gap x.rate

theorem Swings.iterate (hx : s.Swings u c i j x) (h : s.OneLength rest i j) (hpull : s.Unpulled)
    (hu : 2 * u.norm = 1) :
    s.iterate.Swings u c i j (x.next 1e-12 s.params.damping rest) := by
  obtain ⟨n, m, hn, hm, hnx, hmx⟩ := hx
  have hposition : ∀ {k : Nat} {n : Node ℝ}, s.nodes[k]? = some n →
      s.computed.nodes.position k = n.drift.position := by
    intro k n hk
    rw [Pool.position, getElem?_nodes_computed, hk, h.momentum]
    rfl
  have hdirection : 0 < u.normSq := by
    rw [← Vec3.norm_mul_self]
    exact mul_self_pos.mpr (right_ne_zero_of_mul (hu.trans_ne one_ne_zero))
  obtain ⟨move, weight, hi, hj, hask⟩ := h.requests hpull
  rw [hposition hn, hposition hm, hmx.drift.norm_position_sub hnx.drift hu,
    hmx.drift.position_sub hnx.drift] at hask
  refine ⟨n.iterate s.params [⟨move, weight⟩], m.iterate s.params [⟨-move, weight⟩], ?_, ?_, ?_⟩
  · rw [h.wellFormed.getElem?_iterate, hn, hi, Option.map_some]
  · rw [h.wellFormed.getElem?_iterate, hm, hj, Option.map_some]
  rcases hask with ⟨hnear, rfl⟩ | ⟨hfar, hweight, rfl⟩
  · rw [Swing.next_near hnear]
    exact ⟨hnx.iterate_unasked h.momentum _, hmx.iterate_unasked h.momentum _⟩
  · have hmove : u * (2 * (x.gap + x.rate)) * (1 - rest / |x.gap + x.rate|) * (0.5 : ℝ) =
        -u * ((x.gap + x.rate) * (rest / |x.gap + x.rate|) - (x.gap + x.rate)) := by
      rw [Scalar.ofScientific_real]
      ext <;> simp only [Vec3.mul_x, Vec3.mul_y, Vec3.mul_z, Vec3.neg_x, Vec3.neg_y, Vec3.neg_z] <;>
        ring
    have hback : ∀ t : ℝ, -(-u * t) = u * t := by
      intro t
      rw [Vec3.mul_real, smul_neg, neg_neg]
      rfl
    rw [hmove, hback, Swing.next, if_neg hfar]
    exact ⟨hnx.iterate_asked h.momentum (by rwa [Vec3.normSq_neg]) hweight.ne' _,
      hmx.iterate_asked h.momentum hdirection hweight.ne' _⟩

theorem Swings.iterateN (hx : s.Swings u c i j x) (h : s.OneLength rest i j)
    (hpull : ∀ k, (s.iterateN k).Unpulled) (hu : 2 * u.norm = 1) (k : Nat) :
    (s.iterateN k).Swings u c i j (Nat.repeat (Swing.next 1e-12 s.params.damping rest) k x) := by
  induction k with
  | zero => exact hx
  | succ k ih =>
    have hstep := ih.iterate (h.iterateN k) (hpull k) hu
    rwa [params_iterateN] at hstep

/-- Nodes at rest stand opposite each other about their midpoint. -/
theorem exists_swings {n m : Node ℝ} (hn : s.nodes[i]? = some n) (hm : s.nodes[j]? = some m)
    (hnrest : n.velocity = 0) (hmrest : m.velocity = 0) (hne : m.position - n.position ≠ 0) :
    ∃ u c, 2 * u.norm = 1 ∧ s.Swings u c i j ⟨(m.position - n.position).norm, 0⟩ := by
  set delta := m.position - n.position with hdelta
  set u := delta.normalize * (2⁻¹ : ℝ) with hu
  have hunit : 2 * u.norm = 1 := by
    rw [hu, Vec3.norm_mul, Vec3.norm_normalize hne, one_mul, abs_of_pos (by norm_num),
      mul_inv_cancel₀ two_ne_zero]
  have hhalf : u * delta.norm = (2⁻¹ : ℝ) • delta := by
    have hnorm := (Vec3.norm_pos hne).ne'
    rw [hu, Vec3.normalize, Scalar.recip_real, Vec3.mul_real, Vec3.mul_real, Vec3.mul_real, smul_smul,
      smul_smul]
    congr 1
    field_simp
  have hzero : ∀ v : Vec3 ℝ, (0 : Vec3 ℝ) = v * (0 : ℝ) := fun v => (zero_smul ℝ v).symm
  refine ⟨u, n.position + (2⁻¹ : ℝ) • delta, hunit, n, m, hn, hm,
    ⟨?_, hnrest.trans (hzero _)⟩, ⟨?_, hmrest.trans (hzero _)⟩⟩
  · have hback : -u * delta.norm = -(u * delta.norm) := smul_neg delta.norm u
    dsimp only
    rw [hback, hhalf, add_neg_cancel_right]
  · have htwice : (2⁻¹ : ℝ) + 2⁻¹ = 1 := by norm_num
    dsimp only
    rw [hhalf, add_assoc, ← add_smul, htwice, one_smul, hdelta, add_sub_cancel]

/-! ## The other nodes, and the energy -/

/-- The nodes that the goal does not hold are at rest. -/
def RestsBut (i j : Nat) (s : Solver ℝ) : Prop :=
  ∀ k n, k ∉ [i, j] → s.nodes[k]? = some n → n.velocity = 0

theorem RestsBut.iterate (hrests : s.RestsBut i j) (h : s.OneLength rest i j)
    (hpull : s.Unpulled) : s.iterate.RestsBut i j := by
  intro k n hk hn
  obtain ⟨g, hgoals, _, hnodes, _⟩ := h.goal
  have hrequests : s.computed.requests k = [] := by
    rw [requests, hpull k, goals_computed_of_only hgoals, List.flatMap_singleton]
    exact List.append_eq_nil_iff.mpr ⟨Goal.requests_eq_nil (hnodes ▸ hk), rfl⟩
  rw [h.wellFormed.getElem?_iterate, hrequests, Option.map_eq_some_iff] at hn
  obtain ⟨n, hn, rfl⟩ := hn
  have hrest := hrests k n hk hn
  have hzero : ((Tally.zero.addAll [] : Tally ℝ).weight == 0) = true := Scalar.beq_real_iff.mpr rfl
  rw [Node.iterate, if_pos h.momentum, Node.move, if_pos hzero, if_pos h.momentum]
  exact hrest

theorem RestsBut.iterateN (hrests : s.RestsBut i j) (h : s.OneLength rest i j)
    (hpull : ∀ k, (s.iterateN k).Unpulled) (k : Nat) : (s.iterateN k).RestsBut i j := by
  induction k with
  | zero => exact hrests
  | succ k ih => exact ih.iterate (h.iterateN k) (hpull k)

theorem RestsBut.velocity_eq_zero (hrests : s.RestsBut i j) {n m : Node ℝ}
    (hn : s.nodes[i]? = some n) (hm : s.nodes[j]? = some m) (hnrest : n.velocity = 0)
    (hmrest : m.velocity = 0) : ∀ n ∈ s.nodes, n.velocity = 0 := by
  intro n' hn'
  obtain ⟨k, hk⟩ := Array.mem_iff_getElem?.mp hn'
  by_cases hmem : k ∈ [i, j]
  · rcases List.mem_pair.mp hmem with rfl | rfl
    · cases hn.symm.trans hk
      exact hnrest
    · cases hm.symm.trans hk
      exact hmrest
  · exact hrests k n' hmem hk

theorem kineticEnergy_eq_zero (h : ∀ n ∈ s.nodes, n.velocity = 0) : s.kineticEnergy = 0 := by
  have hnone : s.nodes.toList.map Node.kineticEnergy = s.nodes.toList.map fun _ => 0 := by
    refine List.map_congr_left fun n hn => ?_
    rw [Node.kineticEnergy, h n (Array.mem_toList_iff.mp hn), Vec3.normSq_zero]
  rw [kineticEnergy, Pool.kineticEnergy, hnone, Scalar.sum_real, List.map_const', List.sum_replicate,
    smul_zero]

/-- From rest, two nodes that one goal keeps at a distance come to rest at exactly that distance in
four iterations, from wherever they start unless they almost coincide, and stay so. When the other
nodes are at rest too, an execution of as many iterations ends converged. -/
theorem OneLength.settles_in_four (h : s.OneLength rest i j) (hdamping : 0 ≤ s.params.damping)
    (hrest : 1e-11 ≤ rest) {n m : Node ℝ} (hn : s.nodes[i]? = some n) (hm : s.nodes[j]? = some m)
    (hnrest : n.velocity = 0) (hmrest : m.velocity = 0)
    (hapart : 1e-12 ≤ (m.position - n.position).norm) (hpull : ∀ k, (s.iterateN k).Unpulled) :
    (∀ k, 4 ≤ k → ∃ n m, (s.iterateN k).nodes[i]? = some n ∧ (s.iterateN k).nodes[j]? = some m ∧
      (m.position - n.position).norm = rest ∧ n.velocity = 0 ∧ m.velocity = 0) ∧
    ((∀ n ∈ s.nodes, n.velocity = 0) → ∀ bounds : ExecutionBounds ℝ,
      0 < bounds.energyThreshold → 4 ≤ bounds.maxIterations →
      (s.execute bounds).2.converged = true) := by
  have htolerance : (0 : ℝ) < 1e-12 := by norm_num
  have hlong : 3 * (1e-12 : ℝ) ≤ rest := le_trans (by norm_num) hrest
  have hne : m.position - n.position ≠ 0 := by
    intro hzero
    rw [hzero, Vec3.norm, Vec3.normSq_zero, Scalar.sqrt_real, Real.sqrt_zero] at hapart
    exact hapart.not_gt htolerance
  obtain ⟨u, c, hu, hx⟩ := exists_swings hn hm hnrest hmrest hne
  have hsettled : ∀ k, 4 ≤ k → ∃ n m,
      (s.iterateN k).nodes[i]? = some n ∧ (s.iterateN k).nodes[j]? = some m ∧
        (m.position - n.position).norm = rest ∧ n.velocity = 0 ∧ m.velocity = 0 := by
    intro k hk
    obtain ⟨n', m', hn', hm', hnx, hmx⟩ := hx.iterateN h hpull hu k
    obtain ⟨hgap, hrate⟩ := Swing.settles_from_rest htolerance hlong hdamping hapart hk
    generalize Nat.repeat _ k _ = x at *
    refine ⟨n', m', hn', hm', ?_, ?_, ?_⟩
    · rw [hmx.norm_position_sub hnx hu, hgap]
    · rw [hnx.velocity_eq, hrate, Vec3.mul_real, zero_smul]
    · rw [hmx.velocity_eq, hrate, Vec3.mul_real, zero_smul]
  refine ⟨hsettled, fun hall bounds hthreshold hmax => ?_⟩
  have hrests : s.RestsBut i j := fun k n _ hk => hall n (Array.mem_of_getElem? hk)
  obtain ⟨n', m', hn', hm', _, hnzero, hmzero⟩ := hsettled 4 le_rfl
  have hstill := (hrests.iterateN h hpull 4).velocity_eq_zero hn' hm' hnzero hmzero
  refine executeFrom_converged (Nat.lt_of_succ_le hmax) ?_ 0
  rwa [kineticEnergy_eq_zero hstill]

/-- Nodes at twice their distance: the first iteration brings them so fast to it that the second one
drifts them into one place, where the goal does not know which way to push. -/
theorem OneLength.settles_in_four_meeting :
    let p : Vec3 ℝ := ⟨2, 0, 0⟩
    let s := segment 1 p
    (s.OneLength 1 0 1 ∧ 0 ≤ s.params.damping ∧ (1e-11 : ℝ) ≤ 1 ∧
      1e-12 ≤ (p - 0).norm ∧ (∀ k, (s.iterateN k).Unpulled)) ∧
    (∀ k, 4 ≤ k → ∃ n m : Node ℝ,
      (s.iterateN k).nodes[0]? = some n ∧ (s.iterateN k).nodes[1]? = some m ∧
        (m.position - n.position).norm = 1 ∧ n.velocity = 0 ∧ m.velocity = 0) ∧
    (s.execute .default).2.converged = true := by
  intro p s
  have hone : s.OneLength 1 0 1 :=
    ⟨wellFormed_segment _ _, rfl, by exact ⟨_, rfl, rfl, rfl, zero_lt_one⟩, Nat.zero_ne_one⟩
  have hdamping : 0 ≤ s.params.damping := by
    change (0 : ℝ) ≤ 0.9
    norm_num
  have hrest : (1e-11 : ℝ) ≤ 1 := by norm_num
  have hapart : 1e-12 ≤ (p - 0).norm := by
    have hunit : (Vec3.xAxis : Vec3 ℝ).norm = 1 := by
      simp [Vec3.norm, Vec3.normSq, Vec3.dot, Vec3.xAxis]
    have hp : p = (Vec3.xAxis : Vec3 ℝ) * (2 : ℝ) := by ext <;> simp [p, Vec3.xAxis]
    rw [sub_zero, hp, Vec3.norm_mul, hunit, abs_two]
    norm_num
  have hpull : ∀ k, (s.iterateN k).Unpulled := fun k =>
    unpulled_of_pointerPull (congrArg Params.pointerPull (params_iterateN s k))
  obtain ⟨hsettled, hconverged⟩ :=
    hone.settles_in_four hdamping hrest rfl rfl rfl rfl hapart hpull
  refine ⟨⟨hone, hdamping, hrest, hapart, hpull⟩, hsettled, ?_⟩
  exact hconverged velocity_segment .default (by change (0 : ℝ) < 1e-12; norm_num) (by decide)

end Solver
end Relaxation
