import Mathlib.Data.List.ProdSigma
import Mathlib.Data.Real.Basic
import Relaxation.Cloth
import Relaxation.Proofs.Goal.Make
import Relaxation.Proofs.Scalar.Exact
import Relaxation.Proofs.Solver.Apart

/-!
# The cloth

The nodes of a cloth come about as the ends of its edges are placed, in an order that the edges decide,
so the node of a grid point is found by its position. The threshold tells grid points apart: over the
reals because they are a unit apart or more, and in binary64 because the integers that lead to the
distance of two of them are exact (`Cloth.exact_binary64`). Hence no node is shared by two grid points
(`Cloth.place_injOn`), and none has two (`Cloth.exists_place_eq`). The goals are those of the edges and
three more, in order (`Cloth.goals_woven`).
-/

namespace Relaxation
namespace Cloth

/-! ## The grid -/

section Grid

variable {n : ℕ} {p q : ℕ × ℕ}

/-- The second point comes next to the first one in its column or row. -/
def Precedes (p q : ℕ × ℕ) : Prop := q = (p.1 + 1, p.2) ∨ q = (p.1, p.2 + 1)

/-- The points are neighbours in a column or row. -/
def Adjacent (p q : ℕ × ℕ) : Prop := Precedes p q ∨ Precedes q p

theorem Precedes.asymm (h : Precedes p q) : ¬Precedes q p := by
  rintro (h' | h') <;> rcases h with h | h <;> simp only [Prod.ext_iff] at h h' <;> omega

theorem gridIndices_eq_product (n : ℕ) : gridIndices n = List.range n ×ˢ List.range n := rfl

theorem mem_gridIndices : p ∈ gridIndices n ↔ p.1 < n ∧ p.2 < n := by
  rw [gridIndices_eq_product, List.mem_product, List.mem_range, List.mem_range]

theorem nodup_gridIndices (n : ℕ) : (gridIndices n).Nodup :=
  List.nodup_range.product List.nodup_range

theorem length_gridIndices (n : ℕ) : (gridIndices n).length = n ^ 2 := by
  rw [gridIndices_eq_product, List.length_product, List.length_range, sq]

theorem mem_neighbours {i j : ℕ} :
    q ∈ neighbours n i j ↔ i + 1 < n ∧ q = (i + 1, j) ∨ j + 1 < n ∧ q = (i, j + 1) := by
  simp [neighbours, List.mem_ite_nil_right]

theorem mem_edges :
    (p, q) ∈ edges n ↔ p ∈ gridIndices n ∧ q ∈ gridIndices n ∧ Precedes p q := by
  rw [edges, List.mem_flatMap]
  simp only [List.mem_map, Prod.mk.injEq, mem_neighbours, mem_gridIndices, Precedes]
  constructor
  · rintro ⟨p, hp, q, ⟨hi, rfl⟩ | ⟨hj, rfl⟩, rfl, rfl⟩
    exacts [⟨hp, ⟨hi, hp.2⟩, .inl rfl⟩, ⟨hp, ⟨hp.1, hj⟩, .inr rfl⟩]
  · rintro ⟨hp, ⟨hi, hj⟩, rfl | rfl⟩
    exacts [⟨p, hp, _, .inl ⟨hi, rfl⟩, rfl, rfl⟩, ⟨p, hp, _, .inr ⟨hj, rfl⟩, rfl, rfl⟩]

theorem nodup_edges (n : ℕ) : (edges n).Nodup := by
  rw [edges, List.nodup_flatMap]
  constructor
  · intro p _
    refine List.Nodup.map (Prod.mk_right_injective p) ?_
    unfold neighbours
    split_ifs <;> simp
  · refine (nodup_gridIndices n).imp fun {p p'} hne => ?_
    rw [Function.onFun, List.disjoint_left]
    intro e he he'
    obtain ⟨q, _, rfl⟩ := List.mem_map.mp he
    obtain ⟨q', _, heq⟩ := List.mem_map.mp he'
    exact hne (congrArg Prod.fst heq).symm

theorem sum_map_product {β γ : Type} (f : β × γ → ℕ) (bs : List β) (cs : List γ) :
    ((bs ×ˢ cs).map f).sum = (bs.map fun b => (cs.map fun c => f (b, c)).sum).sum := by
  induction bs with
  | nil => rfl
  | cons b bs ih =>
    rw [List.product_cons, List.map_append, List.sum_append, ih, List.map_map]
    rfl

/-- All but the last of a row have a next one. -/
theorem sum_map_ite_range (n : ℕ) :
    ((List.range n).map fun i => if i + 1 < n then 1 else 0).sum = n - 1 := by
  cases n with
  | zero => rfl
  | succ n =>
    have hall : ∀ i ∈ List.range n, (if i + 1 < n + 1 then 1 else 0) = 1 := fun i hi =>
      if_pos (Nat.succ_lt_succ (List.mem_range.mp hi))
    rw [List.range_succ, List.map_append, List.sum_append, List.map_congr_left hall]
    simp

theorem length_edges (n : ℕ) : (edges n).length = 2 * n * (n - 1) := by
  have hlength : ∀ p : ℕ × ℕ, ((neighbours n p.1 p.2).map (p, ·)).length =
      (if p.1 + 1 < n then 1 else 0) + if p.2 + 1 < n then 1 else 0 := fun p => by
    rw [List.length_map, neighbours, List.length_append]
    split_ifs <;> rfl
  rw [edges, List.length_flatMap, gridIndices_eq_product]
  simp only [hlength]
  rw [sum_map_product]
  have hrow : ∀ i, ((List.range n).map fun j => (if i + 1 < n then 1 else 0) +
      if j + 1 < n then 1 else 0).sum = n * (if i + 1 < n then 1 else 0) + (n - 1) := fun i => by
    rw [List.sum_map_add, sum_map_ite_range, List.map_const', List.sum_replicate, List.length_range,
      smul_eq_mul]
  simp only [hrow]
  rw [List.sum_map_add, List.sum_map_mul_left, sum_map_ite_range, List.map_const',
    List.sum_replicate, List.length_range, smul_eq_mul]
  ring

end Grid

/-! ## Exact arithmetic on the grid -/

/-- The position of a grid point. -/
def point {α : Type} [Scalar α] (p : ℕ × ℕ) : Vec3 α := gridPoint p.1 p.2

/-- The merge threshold of a cloth. -/
def threshold {α : Type} [Scalar α] : α := Params.default.mergeThreshold

/-- What making an `n × n` cloth takes of the arithmetic: distances of grid points that are as good as
exact, and numbers that the goals accept. -/
structure Exact (α : Type) [Scalar α] (n : ℕ) : Prop where
  within_iff : ∀ p ∈ gridIndices n, ∀ q ∈ gridIndices n,
    (point p : Vec3 α).distSq (point q) < threshold * threshold ↔ p = q
  norm_sub : ∀ e ∈ edges n, (point e.2 - point e.1 : Vec3 α).norm = 1
  isFinite_corner : ∀ i ≤ n - 1, (point (i, n - 1) : Vec3 α).isFinite = true
  isFinite_gravity : (gravity : Vec3 α).isFinite = true
  usable_rest : Usable (1 : α)
  usable_hold : Usable (100.0 : α)

/-- Distinct grid points are a unit apart or more. -/
theorem one_le_distSq {p q : ℕ × ℕ} (h : p ≠ q) : (1 : ℝ) ≤ (point p).distSq (point q) := by
  have hcoordinate : ∀ {i j : ℕ}, i ≠ j → (1 : ℝ) ≤ ((i : ℝ) - j) * (i - j) := fun {i j} hij => by
    have hne : (i : ℤ) - j ≠ 0 := sub_ne_zero.mpr (Nat.cast_injective.ne hij)
    have hpos : 1 ≤ ((i : ℤ) - j) * (i - j) := mul_self_pos.mpr hne
    exact_mod_cast hpos
  by_cases hi : p.1 = q.1
  · have hj : p.2 ≠ q.2 := fun hj => h (Prod.ext hi hj)
    exact (hcoordinate hj).trans (point p - point q : Vec3 ℝ).y_mul_self_le_normSq
  · exact (hcoordinate hi).trans (point p - point q : Vec3 ℝ).x_mul_self_le_normSq

/-- Nothing is rounded over the reals. -/
theorem exact_real (n : ℕ) : Exact ℝ n where
  within_iff p _ q _ := by
    constructor
    · intro hlt
      have hone : (threshold * threshold : ℝ) < 1 := by norm_num [threshold, Params.default]
      by_contra hne
      exact (one_le_distSq hne).not_gt (hlt.trans hone)
    · rintro rfl
      rw [Vec3.distSq, sub_self, Vec3.normSq_zero]
      norm_num [threshold, Params.default]
  norm_sub e he := by
    refine Vec3.norm_eq_one ?_
    rcases (mem_edges.mp he).2.2 with heq | heq <;>
      simp [heq, point, gridPoint, Vec3.normSq, Vec3.dot]
  isFinite_corner _ _ := rfl
  isFinite_gravity := rfl
  usable_rest := usable_real_iff.mpr zero_le_one
  usable_hold := usable_real_iff.mpr (by norm_num)

section Binary64

open Binary64

/-- The vector with integers for its components. -/
def ofInts (i j k : ℤ) : Vec3 Binary64 := ⟨ofInt i, ofInt j, ofInt k⟩

theorem point_eq_ofInts {p : ℕ × ℕ} (hi : p.1 < 2 ^ 53) (hj : p.2 < 2 ^ 53) :
    point p = ofInts p.1 p.2 0 := by
  rw [point, gridPoint, natCast_eq_ofInt hi, natCast_eq_ofInt hj]
  rfl

/-- The components of a grid point are integers, with no rounding. -/
theorem toReal_point {p : ℕ × ℕ} (hi : p.1 < 2 ^ 53) (hj : p.2 < 2 ^ 53) :
    (point p : Vec3 Binary64).x.toReal = p.1 ∧ (point p : Vec3 Binary64).y.toReal = p.2 ∧
      (point p : Vec3 Binary64).z.toReal = 0 :=
  ⟨toReal_natCast hi, toReal_natCast hj, toReal_zero⟩

theorem natAbs_mul_self_lt {i : ℤ} (hi : i.natAbs < 2 ^ 26) : (i * i).natAbs < 2 ^ 52 := by
  calc (i * i).natAbs = i.natAbs * i.natAbs := Int.natAbs_mul i i
    _ < 2 ^ 26 * 2 ^ 26 := Nat.mul_lt_mul'' hi hi
    _ = 2 ^ 52 := by norm_num

theorem natAbs_normSq_lt {i j : ℤ} (hi : i.natAbs < 2 ^ 26) (hj : j.natAbs < 2 ^ 26) :
    (i * i + j * j).natAbs < 2 ^ 53 := by
  have hi := natAbs_mul_self_lt hi
  have hj := natAbs_mul_self_lt hj
  omega

/-- The square of a difference is never a product of zero and a negative number. -/
theorem normSq_ofInts {i j : ℤ} (hi : i.natAbs < 2 ^ 26) (hj : j.natAbs < 2 ^ 26) :
    (ofInts i j 0).normSq = ofInt (i * i + j * j) := by
  have hsquare : ∀ {k : ℤ}, k.natAbs < 2 ^ 26 → ofInt k * ofInt k = ofInt (k * k) := by
    intro k hk
    have hlt := natAbs_mul_self_lt hk
    refine ofInt_mul_ofInt (by omega) (by omega) (fun hzero => ?_) (by omega)
    rw [mul_self_eq_zero.mp hzero]
    exact ⟨le_rfl, le_rfl⟩
  have hi' := natAbs_mul_self_lt hi
  have hj' := natAbs_mul_self_lt hj
  change ofInt i * ofInt i + ofInt j * ofInt j + ofInt 0 * ofInt 0 = _
  rw [hsquare hi, hsquare hj, hsquare (by decide), ofInt_add_ofInt (by omega) (by omega) (by omega),
    ofInt_add_ofInt (by omega) (by decide) (by omega), mul_zero, add_zero]

/-- The rounded square of the threshold is less than one, so no other integer is below it. -/
theorem ofInt_lt_threshold_iff {k : ℤ} (hk : 0 ≤ k) (hlt : k.natAbs < 2 ^ 53) :
    ofInt k < threshold * threshold ↔ k = 0 := by
  have hfinite : Scalar.isFinite (threshold * threshold : Binary64) = true := by decide +kernel
  have hle : (threshold * threshold : Binary64) ≤ ofInt 1 := by decide +kernel
  constructor
  · intro h
    rw [le_iff_toReal_le hfinite (isFinite_ofInt (by decide)), toReal_ofInt (by decide)] at hle
    rw [lt_iff_toReal_lt (isFinite_ofInt hlt) hfinite, toReal_ofInt hlt] at h
    have hone : k < 1 := Int.cast_lt.mp (h.trans_le hle)
    omega
  · rintro rfl
    decide +kernel

variable {n : ℕ} (h : n ≤ 2 ^ 26) {p q : ℕ × ℕ} (hp : p ∈ gridIndices n) (hq : q ∈ gridIndices n)

include h hp hq

theorem point_sub_point :
    (point p - point q : Vec3 Binary64) = ofInts (p.1 - q.1) (p.2 - q.2) 0 := by
  obtain ⟨hi, hj⟩ := mem_gridIndices.mp hp
  obtain ⟨hi', hj'⟩ := mem_gridIndices.mp hq
  rw [point_eq_ofInts (by omega) (by omega), point_eq_ofInts (by omega) (by omega)]
  refine Vec3.ext ?_ ?_ ?_
  · exact ofInt_sub_ofInt (by omega) (by omega) (by omega)
  · exact ofInt_sub_ofInt (by omega) (by omega) (by omega)
  · exact ofInt_sub_ofInt (by decide) (by decide) (by decide)

/-- Neither the differences nor their squares are rounded. -/
theorem distSq_point :
    (point p : Vec3 Binary64).distSq (point q) =
      ofInt (((p.1 : ℤ) - q.1) * (p.1 - q.1) + (p.2 - q.2) * (p.2 - q.2)) := by
  obtain ⟨hi, hj⟩ := mem_gridIndices.mp hp
  obtain ⟨hi', hj'⟩ := mem_gridIndices.mp hq
  rw [Vec3.distSq, point_sub_point h hp hq]
  exact normSq_ofInts (by omega) (by omega)

end Binary64

/-- A sum of two squares stays below `2 ^ 53` when the numbers stay below `2 ^ 26`. -/
theorem exact_binary64 {n : ℕ} (h : n ≤ 2 ^ 26) : Exact Binary64 n where
  within_iff p hp q hq := by
    obtain ⟨hi, hj⟩ := mem_gridIndices.mp hp
    obtain ⟨hi', hj'⟩ := mem_gridIndices.mp hq
    have hbound := natAbs_normSq_lt (i := p.1 - q.1) (j := p.2 - q.2) (by omega) (by omega)
    have hnonneg : 0 ≤ ((p.1 : ℤ) - q.1) * (p.1 - q.1) + (p.2 - q.2) * (p.2 - q.2) :=
      add_nonneg (mul_self_nonneg _) (mul_self_nonneg _)
    rw [distSq_point h hp hq, ofInt_lt_threshold_iff hnonneg hbound,
      mul_self_add_mul_self_eq_zero, Prod.ext_iff]
    omega
  norm_sub e he := by
    obtain ⟨hp, hq, hpq⟩ := mem_edges.mp he
    have hone : (point e.2 - point e.1 : Vec3 Binary64).normSq = .ofInt 1 := by
      refine (distSq_point h hq hp).trans (congrArg Binary64.ofInt ?_)
      rcases hpq with heq | heq <;> rw [heq] <;> push_cast <;> ring
    rw [Vec3.norm, hone]
    exact Binary64.sqrt_one
  isFinite_corner i hi := by
    have hfinite : ∀ k ≤ n - 1, Scalar.isFinite (k : Binary64) = true := fun k hk => by
      rw [Binary64.natCast_eq_ofInt (by omega)]
      exact Binary64.isFinite_ofInt (by omega)
    have hzero : Scalar.isFinite (0 : Binary64) = true := by decide
    rw [point, gridPoint, Vec3.isFinite, hfinite i hi, hfinite (n - 1) le_rfl, hzero]
    rfl
  isFinite_gravity := by decide +kernel
  usable_rest := ⟨by decide +kernel, by decide +kernel⟩
  usable_hold := ⟨by decide +kernel, by decide +kernel⟩

/-! ## The goals -/

section Goals

variable {α : Type} [Scalar α]

/-- The goal that keeps the ends of an edge apart. -/
def spring (e : (ℕ × ℕ) × (ℕ × ℕ)) : Goal α :=
  Goal.ofAim (.length 1) [point e.1, point e.2] 1

/-- The goal that holds a grid point in place. -/
def pin (p : ℕ × ℕ) : Goal α := Goal.ofAim (.anchor (point p)) [point p] 100.0

/-- The goal that pulls on all grid points. -/
def pull (n : ℕ) : Goal α :=
  Goal.ofAim (.force gravity) ((gridIndices n).map point) 1

/-- The goals of a cloth in the order in which they are attached. -/
def goals (n : ℕ) : List (Goal α) :=
  (edges n).map spring ++ [pin (0, n - 1), pin (n - 1, n - 1), pull n]

variable {n : ℕ} (hexact : Exact α n)

include hexact

theorem currentLength_eq {e : (ℕ × ℕ) × (ℕ × ℕ)} (h : e ∈ edges n) :
    Goal.currentLength (point e.1) (point e.2) (1 : α) = .ok (spring e) := by
  rw [Goal.currentLength, hexact.norm_sub e h]
  exact Goal.length_eq_ok_iff.mpr ⟨hexact.usable_rest, hexact.usable_rest, rfl⟩

theorem anchor_eq {i : ℕ} (h : i ≤ n - 1) :
    Goal.anchor (point (i, n - 1)) (point (i, n - 1)) (100.0 : α) = .ok (pin (i, n - 1)) :=
  Goal.anchor_eq_ok_iff.mpr ⟨hexact.isFinite_corner i h, hexact.usable_hold, rfl⟩

theorem force_eq (h : 0 < n) :
    Goal.force ((gridIndices n).map point) gravity (1 : α) = .ok (pull n) := by
  refine Goal.force_eq_ok_iff.mpr ⟨?_, hexact.isFinite_gravity, hexact.usable_rest, rfl⟩
  rw [List.length_map, length_gridIndices]
  exact Nat.pow_pos h

omit hexact in
theorem addEdge_eq (s : Solver α) (e : (ℕ × ℕ) × (ℕ × ℕ)) :
    addEdge s e = (Goal.currentLength (point e.1) (point e.2) 1).map
      fun g => s.attach s.params.mergeThreshold g := by
  unfold addEdge point
  cases h : Goal.currentLength (gridPoint e.1.1 e.1.2) (gridPoint e.2.1 e.2.2) (1 : α) with
  | error f => rfl
  | ok g => exact (Goal.Made.currentLength h).addGoalWithThreshold_eq s s.params.mergeThreshold

theorem foldlM_addEdge (s : Solver α) :
    (edges n).foldlM addEdge s = .ok (s.attachAll ((edges n).map spring)) := by
  have hbuild : (edges n).mapM (fun e => Goal.currentLength (point e.1) (point e.2) (1 : α)) =
      .ok ((edges n).map spring) := by
    refine Checked.mapM_eq_ok_iff.mpr ?_
    rw [List.map_map]
    exact List.map_congr_left fun e he => currentLength_eq hexact he
  rw [Checked.foldlM_eq_map addEdge_eq, hbuild]
  rfl

theorem addCorner_eq (s : Solver α) {i : ℕ} (h : i ≤ n - 1) :
    addCorner s i (n - 1) = .ok (s.attachAll [pin (i, n - 1)]) := by
  have hanchor : Goal.anchor (gridPoint i (n - 1)) (gridPoint i (n - 1)) (100.0 : α) =
      .ok (pin (i, n - 1)) := anchor_eq hexact h
  have hmade : (pin (i, n - 1) : Goal α).Made := .anchor hanchor
  rw [addCorner, hanchor]
  exact hmade.addGoalWithThreshold_eq s s.params.mergeThreshold

/-- Building a cloth is attaching its goals to a new solver. -/
theorem make_eq (h : 0 < n) :
    make n = .ok ((Solver.new Params.default).attachAll (goals n : List (Goal α))) := by
  have hmade : (pull n : Goal α).Made := .force (force_eq hexact h)
  unfold make
  rw [foldlM_addEdge hexact]
  change (addCorner _ _ _ >>= _) = _
  rw [addCorner_eq hexact _ (Nat.zero_le _)]
  change (addCorner _ _ _ >>= _) = _
  rw [addCorner_eq hexact _ le_rfl]
  change (Goal.force ((gridIndices n).map point) gravity 1 >>= _) = _
  rw [force_eq hexact h]
  refine (hmade.addGoalWithThreshold_eq _ _).trans ?_
  simp only [goals, Solver.attachAll, List.foldl_append, List.foldl_cons, List.foldl_nil]

omit hexact in
/-- There is nothing for gravity to pull on. -/
theorem make_zero (hexact : Exact α 0) :
    (make 0 : Checked α (Solver α)) = .error (.tooFewNodes (.goal .force) 1 0) := by
  unfold make
  rw [foldlM_addEdge hexact]
  change (addCorner _ 0 (0 - 1) >>= _) = _
  rw [addCorner_eq hexact _ le_rfl]
  change (addCorner _ 0 (0 - 1) >>= _) = _
  rw [addCorner_eq hexact _ le_rfl]
  rfl

end Goals

/-! ## What comes of it -/

section Woven

variable {α : Type}

/-- The goal keeps a distance between two nodes. -/
def Joins (g : Goal α) (i j : ℕ) : Prop :=
  g.kind = .length ∧ (g.nodes = [i, j] ∨ g.nodes = [j, i])

theorem joins_comm {g : Goal α} {i j : ℕ} : Joins g i j ↔ Joins g j i := and_congr_right' or_comm

variable [Scalar α]

/-- The solver holds an `n × n` cloth with these nodes for the grid points. -/
structure IsWoven (n : ℕ) (place : ℕ × ℕ → ℕ) (s : Solver α) : Prop where
  size_nodes : s.nodes.size = n ^ 2
  /-- Every node is that of one grid point. -/
  bijOn : Set.BijOn place {p | p.1 < n ∧ p.2 < n} (Set.Iio s.nodes.size)
  position : ∀ p, p.1 < n → p.2 < n → s.nodes.position (place p) = gridPoint p.1 p.2
  size_goals : s.goals.size = 2 * n * (n - 1) + 3
  /-- Only neighbours are kept apart, and by one unit. -/
  rest : ∀ g ∈ s.goals, g.kind = .length → g.aim = .length 1 ∧ g.weight = 1 ∧
    ∃ p q, p.1 < n ∧ p.2 < n ∧ q.1 < n ∧ q.2 < n ∧ Adjacent p q ∧ Joins g (place p) (place q)
  /-- Of all the goals one keeps the neighbours apart. -/
  joined : ∀ p q, p.1 < n → p.2 < n → q.1 < n → q.2 < n → Adjacent p q →
    ∃! k : ℕ, ∃ g, s.goals[k]? = some g ∧ Joins g (place p) (place q)
  /-- The anchors hold two corners where they are. -/
  pinned : (s.goals.toList.filter (·.kind = .anchor)).map (fun g => (g.aim, g.nodes)) =
    [(.anchor (gridPoint 0 (n - 1)), [place (0, n - 1)]),
      (.anchor (gridPoint (n - 1) (n - 1)), [place (n - 1, n - 1)])]
  /-- The force refers to every node once. -/
  pulled : ∃ g, s.goals.toList.filter (·.kind = .force) = [g] ∧
    g.nodes.Perm (List.range s.nodes.size)

/-- The solver of a cloth. -/
def woven (α : Type) [Scalar α] (n : ℕ) : Solver α :=
  (Solver.new Params.default).attachAll (goals n)

/-- The node of a grid point. -/
def place (α : Type) [Scalar α] (n : ℕ) (p : ℕ × ℕ) : ℕ :=
  (woven α n).nodes.placeOf threshold (point p)

/-- The positions of the grid points. -/
def points (α : Type) [Scalar α] (n : ℕ) : Set (Vec3 α) := point '' {p | p ∈ gridIndices n}

variable {n : ℕ} (hexact : Exact α n)

include hexact

theorem point_injOn {p q : ℕ × ℕ} (hp : p ∈ gridIndices n) (hq : q ∈ gridIndices n)
    (heq : (point p : Vec3 α) = point q) : p = q := by
  have hself := (hexact.within_iff p hp p hp).mpr rfl
  refine (hexact.within_iff p hp q hq).mp ?_
  rwa [← heq]

theorem apart_points : Apart threshold (points α n) := by
  rintro _ ⟨p, hp, rfl⟩ _ ⟨q, hq, rfl⟩
  exact (hexact.within_iff p hp q hq).trans ⟨congrArg point, point_injOn hexact hp hq⟩

variable (h : 0 < n)

include h

omit hexact in
theorem starts_of_mem {g : Goal α} (hg : g ∈ goals n) : ∀ x ∈ g.starts, x ∈ points α n := by
  have hcorner : ∀ i ≤ n - 1, (i, n - 1) ∈ gridIndices n := fun i hi =>
    mem_gridIndices.mpr ⟨by omega, by omega⟩
  intro x hx
  simp only [goals, List.mem_append, List.mem_map, List.mem_cons, List.not_mem_nil, or_false] at hg
  obtain ⟨e, he, rfl⟩ | rfl | rfl | rfl := hg
  · obtain ⟨hp, hq, _⟩ := mem_edges.mp he
    obtain rfl | rfl := List.mem_pair.mp hx
    exacts [⟨_, hp, rfl⟩, ⟨_, hq, rfl⟩]
  · exact ⟨_, hcorner 0 (Nat.zero_le _), (List.mem_singleton.mp hx).symm⟩
  · exact ⟨_, hcorner (n - 1) le_rfl, (List.mem_singleton.mp hx).symm⟩
  · exact List.mem_map.mp hx

theorem seated_woven : (woven α n).Seated (points α n) :=
  (Solver.seated_new _ _).attachAll (apart_points hexact) fun _ => starts_of_mem h

theorem goals_woven : (woven α n).goals.toList =
    (goals n).map (Goal.placed threshold (woven α n).nodes) :=
  Solver.goals_attachAll_new (apart_points hexact) fun _ => starts_of_mem h

theorem placed_pull_mem : (pull n).placed threshold (woven α n).nodes ∈ (woven α n).goals := by
  rw [← Array.mem_toList_iff, goals_woven hexact h]
  exact List.mem_map_of_mem (by simp [goals])

/-- A grid point has a node, for gravity pulls on it. -/
theorem at_place {p : ℕ × ℕ} (hp : p ∈ gridIndices n) :
    (woven α n).nodes.At (point p) (place α n p) := by
  have hat := (seated_woven hexact h).at_starts _ (placed_pull_mem hexact h)
  change List.Forall₂ _ ((gridIndices n).map point) (((gridIndices n).map point).map _) at hat
  rw [List.forall₂_map_right_iff, List.forall₂_same, List.forall_mem_map] at hat
  exact hat p hp

theorem place_lt {p : ℕ × ℕ} (hp : p ∈ gridIndices n) :
    place α n p < (woven α n).nodes.size := by
  obtain ⟨node, hnode, _⟩ := at_place hexact h hp
  exact (Array.getElem?_eq_some_iff.mp hnode).1

theorem place_injOn {p q : ℕ × ℕ} (hp : p ∈ gridIndices n) (hq : q ∈ gridIndices n)
    (heq : place α n p = place α n q) : p = q := by
  obtain ⟨node, hnode, hpos⟩ := at_place hexact h hp
  obtain ⟨node', hnode', hpos'⟩ := at_place hexact h hq
  rw [heq, hnode'] at hnode
  obtain rfl := Option.some.inj hnode
  exact point_injOn hexact hp hq (hpos.symm.trans hpos')

theorem exists_place_eq {k : ℕ} (hk : k < (woven α n).nodes.size) :
    ∃ p ∈ gridIndices n, place α n p = k := by
  have hdistinct := (seated_woven hexact h).distinct
  obtain ⟨p, hp, hpos⟩ := hdistinct.mem _ (Array.getElem_mem hk)
  exact ⟨p, hp, hdistinct.unique (at_place hexact h hp)
    ⟨_, Array.getElem?_eq_getElem hk, hpos.symm⟩⟩

/-- Gravity pulls on every node once. -/
theorem perm_place : ((gridIndices n).map (place α n)).Perm (List.range (woven α n).nodes.size) := by
  have hnodup : ((gridIndices n).map (place α n)).Nodup :=
    (nodup_gridIndices n).map_on fun _ hp _ hq => place_injOn hexact h hp hq
  refine (List.perm_ext_iff_of_nodup hnodup List.nodup_range).mpr fun k => ?_
  rw [List.mem_map, List.mem_range]
  constructor
  · rintro ⟨p, hp, rfl⟩
    exact place_lt hexact h hp
  · exact exists_place_eq hexact h

theorem size_nodes_woven : (woven α n).nodes.size = n ^ 2 := by
  calc (woven α n).nodes.size = (List.range (woven α n).nodes.size).length := List.length_range.symm
    _ = ((gridIndices n).map (place α n)).length := (perm_place hexact h).length_eq.symm
    _ = n ^ 2 := by rw [List.length_map, length_gridIndices]

theorem size_goals_woven : (woven α n).goals.size = 2 * n * (n - 1) + 3 := by
  rw [← Array.length_toList, goals_woven hexact h, List.length_map, goals, List.length_append,
    List.length_map, length_edges]
  rfl

theorem getElem?_goals_woven {k : ℕ} {e : (ℕ × ℕ) × (ℕ × ℕ)} (he : (edges n)[k]? = some e) :
    (woven α n).goals[k]? = some { spring e with nodes := [place α n e.1, place α n e.2] } := by
  have hk : k < ((edges n).map fun e => (spring e : Goal α)).length := by
    rw [List.length_map]
    exact (List.getElem?_eq_some_iff.mp he).1
  rw [← Array.getElem?_toList, goals_woven hexact h, List.getElem?_map, goals,
    List.getElem?_append_left hk, List.getElem?_map, he]
  rfl

/-- A goal that keeps a distance is that of an edge. -/
theorem exists_edge {k : ℕ} {g : Goal α} (hg : (woven α n).goals[k]? = some g)
    (hkind : g.kind = .length) : ∃ e, (edges n)[k]? = some e ∧
      g = { spring e with nodes := [place α n e.1, place α n e.2] } := by
  rw [← Array.getElem?_toList, goals_woven hexact h, List.getElem?_map, Option.map_eq_some_iff] at hg
  obtain ⟨g, hg, rfl⟩ := hg
  rw [goals, List.getElem?_append] at hg
  split_ifs at hg with hk
  · rw [List.getElem?_map, Option.map_eq_some_iff] at hg
    obtain ⟨e, he, rfl⟩ := hg
    exact ⟨e, he, rfl⟩
  · have hmem := List.mem_of_getElem? hg
    simp only [List.mem_cons, List.not_mem_nil, or_false] at hmem
    rcases hmem with rfl | rfl | rfl <;> cases hkind

theorem joins_iff {e : (ℕ × ℕ) × (ℕ × ℕ)} (he : e ∈ edges n) {p q : ℕ × ℕ}
    (hp : p ∈ gridIndices n) (hq : q ∈ gridIndices n) :
    Joins { (spring e : Goal α) with nodes := [place α n e.1, place α n e.2] }
      (place α n p) (place α n q) ↔ e = (p, q) ∨ e = (q, p) := by
  obtain ⟨hfirst, hlast, _⟩ := mem_edges.mp he
  have hplace : ∀ {a b}, a ∈ gridIndices n → b ∈ gridIndices n →
      (place α n a = place α n b ↔ a = b) := fun ha hb =>
        ⟨place_injOn hexact h ha hb, congrArg (place α n)⟩
  have hkind : { (spring e : Goal α) with nodes := [place α n e.1, place α n e.2] }.kind =
    .length := rfl
  simp only [Joins, hkind, true_and, List.cons.injEq, and_true, hplace hfirst hp, hplace hfirst hq,
    hplace hlast hp, hplace hlast hq, Prod.ext_iff]

theorem joined_of_precedes {p q : ℕ × ℕ} (hp : p ∈ gridIndices n) (hq : q ∈ gridIndices n)
    (hpq : Precedes p q) :
    ∃! k : ℕ, ∃ g, (woven α n).goals[k]? = some g ∧ Joins g (place α n p) (place α n q) := by
  have hedge : (p, q) ∈ edges n := mem_edges.mpr ⟨hp, hq, hpq⟩
  obtain ⟨k, hk⟩ := List.mem_iff_getElem?.mp hedge
  refine ⟨k, ⟨_, getElem?_goals_woven hexact h hk, ?_⟩, ?_⟩
  · exact (joins_iff hexact h hedge hp hq).mpr (.inl rfl)
  rintro k' ⟨g, hg, hjoins⟩
  obtain ⟨e, he, rfl⟩ := exists_edge hexact h hg hjoins.1
  have hmem := List.mem_of_getElem? he
  rcases (joins_iff hexact h hmem hp hq).mp hjoins with rfl | rfl
  · obtain ⟨_, hk⟩ := List.getElem?_eq_some_iff.mp hk
    obtain ⟨_, he⟩ := List.getElem?_eq_some_iff.mp he
    exact (nodup_edges n).getElem_inj_iff.mp (he.trans hk.symm)
  · exact absurd (mem_edges.mp hmem).2.2 hpq.asymm

/-- The goals of other kinds come after those of the edges. -/
theorem filter_goals_woven {kind : GoalKind} (hkind : kind ≠ .length) :
    (woven α n).goals.toList.filter (·.kind = kind) =
      ([pin (0, n - 1), pin (n - 1, n - 1), pull n].map
        (Goal.placed threshold (woven α n).nodes)).filter (·.kind = kind) := by
  have hsprings : (((edges n).map spring).map (Goal.placed threshold (woven α n).nodes)).filter
      (·.kind = kind) = [] := by
    rw [List.filter_eq_nil_iff, List.map_map, List.forall_mem_map]
    intro e _ heq
    exact hkind (of_decide_eq_true heq).symm
  rw [goals_woven hexact h, goals, List.map_append, List.filter_append, hsprings, List.nil_append]

theorem isWoven : IsWoven n (place α n) (woven α n) where
  size_nodes := size_nodes_woven hexact h
  bijOn := by
    simp only [← mem_gridIndices]
    exact ⟨fun p => place_lt hexact h, fun p hp q => place_injOn hexact h hp,
      fun k => exists_place_eq hexact h⟩
  position p hi hj := by
    obtain ⟨node, hnode, hpos⟩ := at_place hexact h (mem_gridIndices.mpr ⟨hi, hj⟩)
    rw [Pool.position, hnode]
    exact hpos
  size_goals := size_goals_woven hexact h
  rest g hg hkind := by
    obtain ⟨k, hk⟩ := Array.mem_iff_getElem?.mp hg
    obtain ⟨e, he, rfl⟩ := exists_edge hexact h hk hkind
    obtain ⟨hp, hq, hpq⟩ := mem_edges.mp (List.mem_of_getElem? he)
    rw [mem_gridIndices] at hp hq
    exact ⟨rfl, rfl, e.1, e.2, hp.1, hp.2, hq.1, hq.2, .inl hpq, hkind, .inl rfl⟩
  joined p q hi hj hi' hj' hpq := by
    have hp : p ∈ gridIndices n := mem_gridIndices.mpr ⟨hi, hj⟩
    have hq : q ∈ gridIndices n := mem_gridIndices.mpr ⟨hi', hj'⟩
    rcases hpq with hpq | hqp
    · exact joined_of_precedes hexact h hp hq hpq
    · have hcomm := fun k : ℕ => exists_congr fun g =>
        and_congr_right' (a := (woven α n).goals[k]? = some g)
          (joins_comm (g := g) (i := place α n p) (j := place α n q))
      exact (existsUnique_congr hcomm).mpr (joined_of_precedes hexact h hq hp hqp)
  pinned := by
    rw [filter_goals_woven hexact h (by decide)]
    rfl
  pulled := by
    refine ⟨(pull n).placed threshold (woven α n).nodes, ?_, ?_⟩
    · rw [filter_goals_woven hexact h (by decide)]
      rfl
    · have hnodes : ((pull n).placed threshold (woven α n).nodes).nodes =
          (gridIndices n).map (place α n) := List.map_map
      rw [hnodes]
      exact perm_place hexact h

end Woven

/-- A cloth of one node or more can be made, over the reals and, with up to `2 ^ 52` nodes, in binary64.
Its nodes are the grid points, each pair of neighbours is joined by one goal of rest length one, two
corners are held, and gravity pulls on every node once. A cloth without nodes cannot be made. -/
theorem make_weaves :
    (∀ n, 1 ≤ n → ∃ (s : Solver ℝ) (place : ℕ × ℕ → ℕ), make n = .ok s ∧ IsWoven n place s) ∧
      (∀ n, 1 ≤ n → n ≤ 2 ^ 26 →
        ∃ (s : Solver Binary64) (place : ℕ × ℕ → ℕ), make n = .ok s ∧ IsWoven n place s) ∧
      (make 0 : Checked ℝ (Solver ℝ)) = .error (.tooFewNodes (.goal .force) 1 0) ∧
      (make 0 : Checked Binary64 (Solver Binary64)) = .error (.tooFewNodes (.goal .force) 1 0) := by
  refine ⟨fun n h => ?_, fun n h hn => ?_, make_zero (exact_real 0), make_zero (exact_binary64 ?_)⟩
  · exact ⟨woven ℝ n, place ℝ n, make_eq (exact_real n) h, isWoven (exact_real n) h⟩
  · have hexact := exact_binary64 hn
    exact ⟨woven Binary64 n, place Binary64 n, make_eq hexact h, isWoven hexact h⟩
  · exact Nat.zero_le _

/-- The nodes and goals of a single mesh. -/
theorem make_weaves_two :
    (∃ (s : Solver ℝ) (place : ℕ × ℕ → ℕ), make 2 = .ok s ∧ IsWoven 2 place s ∧ s.nodes.size = 4 ∧
      s.goals.size = 7) ∧
    ∃ (s : Solver Binary64) (place : ℕ × ℕ → ℕ), make 2 = .ok s ∧ IsWoven 2 place s ∧
      s.nodes.size = 4 ∧ s.goals.size = 7 := by
  constructor
  · obtain ⟨s, place, hmake, hwoven⟩ := make_weaves.1 2 one_le_two
    exact ⟨s, place, hmake, hwoven, hwoven.size_nodes, hwoven.size_goals⟩
  · obtain ⟨s, place, hmake, hwoven⟩ := make_weaves.2.1 2 one_le_two (by decide)
    exact ⟨s, place, hmake, hwoven, hwoven.size_nodes, hwoven.size_goals⟩

end Cloth
end Relaxation
