import Relaxation.Proofs.Scenario
import Relaxation.Proofs.Solver.Merging

/-!
# Positions that the merge threshold tells apart

Whether two positions merge is decided by a rounded distance. Where the threshold tells all starting
positions apart the rounding does not show: goals that are attached to an empty solver share a node
exactly if they share a starting position, and each of them is on the nodes at its own ones
(`Solver.Seated`). Their nodes can then be found by position (`Solver.goals_attachAll_new`).
-/

namespace Relaxation

variable {α : Type} [Scalar α]

/-- Of these positions each is within the threshold of itself and of no other one. -/
def Apart (t : α) (S : Set (Vec3 α)) : Prop :=
  ∀ p ∈ S, ∀ q ∈ S, p.distSq q < t * t ↔ p = q

namespace Pool

omit [Scalar α] in
/-- The node at the place lies at the position. -/
def At (pool : Pool α) (p : Vec3 α) (i : ℕ) : Prop := ∃ n, pool[i]? = some n ∧ n.position = p

omit [Scalar α] in
/-- The nodes lie at these positions, and no two of them at the same one. -/
structure Distinct (S : Set (Vec3 α)) (pool : Pool α) : Prop where
  mem : ∀ n ∈ pool, n.position ∈ S
  pairwise : pool.toList.Pairwise fun n m => n.position ≠ m.position

/-- The place of the first node within the threshold of a position. -/
def placeOf (t : α) (pool : Pool α) (p : Vec3 α) : ℕ := (pool.firstWithin? t p).getD 0

variable {t : α} {S : Set (Vec3 α)} {pool : Pool α} {p : Vec3 α} {i j : ℕ}

omit [Scalar α] in
theorem At.append (h : pool.At p i) (more : Pool α) : At (pool ++ more) p i := by
  obtain ⟨n, hn, hpos⟩ := h
  have hi : i < pool.size := (Array.getElem?_eq_some_iff.mp hn).1
  exact ⟨n, by rw [Array.getElem?_append_left hi, hn], hpos⟩

namespace Distinct

omit [Scalar α] in
theorem mem_of_at (h : pool.Distinct S) (hi : pool.At p i) : p ∈ S := by
  obtain ⟨n, hn, rfl⟩ := hi
  exact h.mem n (Array.mem_of_getElem? hn)

omit [Scalar α] in
theorem position_ne (h : pool.Distinct S) (hi : pool.At p i) (hij : j < i) {n : Node α}
    (hn : pool[j]? = some n) : n.position ≠ p := by
  obtain ⟨m, hm, rfl⟩ := hi
  obtain ⟨hi, rfl⟩ := Array.getElem?_eq_some_iff.mp hm
  obtain ⟨hj, rfl⟩ := Array.getElem?_eq_some_iff.mp hn
  exact List.pairwise_iff_getElem.mp h.pairwise j i hj hi hij

omit [Scalar α] in
theorem unique (h : pool.Distinct S) (hi : pool.At p i) (hj : pool.At p j) : i = j := by
  obtain ⟨n, hn, hpos⟩ := hi
  obtain ⟨m, hm, hpos'⟩ := hj
  rcases lt_trichotomy i j with hlt | rfl | hlt
  · exact absurd hpos (h.position_ne ⟨m, hm, hpos'⟩ hlt hn)
  · rfl
  · exact absurd hpos' (h.position_ne ⟨n, hn, hpos⟩ hlt hm)

variable (ht : Apart t S) (h : pool.Distinct S) (hp : p ∈ S)

include ht h hp

theorem within_iff {n : Node α} (hn : n ∈ pool) :
    decide (n.position.distSq p < t * t) = true ↔ n.position = p := by
  rw [decide_eq_true_iff]
  exact ht _ (h.mem n hn) p hp

theorem firstWithin?_eq_none_iff : pool.firstWithin? t p = none ↔ ∀ n ∈ pool, n.position ≠ p := by
  rw [firstWithin?, Array.findIdx?_eq_none_iff]
  exact forall₂_congr fun n hn => Bool.eq_false_iff.trans (within_iff ht h hp hn).not

theorem firstWithin?_eq_some_iff : pool.firstWithin? t p = some i ↔ pool.At p i := by
  rw [firstWithin?, Array.findIdx?_eq_some_iff_getElem]
  constructor
  · rintro ⟨hi, hwithin, _⟩
    have hpos := (within_iff ht h hp (Array.getElem_mem hi)).mp hwithin
    exact ⟨pool[i], Array.getElem?_eq_getElem hi, hpos⟩
  · rintro ⟨n, hn, hpos⟩
    obtain ⟨hi, rfl⟩ := Array.getElem?_eq_some_iff.mp hn
    refine ⟨hi, (within_iff ht h hp (Array.getElem_mem hi)).mpr hpos, fun j hj hwithin => ?_⟩
    have hj' : pool[j]? = some pool[j] := Array.getElem?_eq_getElem (hj.trans hi)
    have hpos' := (within_iff ht h hp (Array.getElem_mem _)).mp hwithin
    exact h.position_ne ⟨_, hn, hpos⟩ hj hj' hpos'

omit hp in
theorem placeOf_eq (hi : pool.At p i) : pool.placeOf t p = i := by
  have hp : p ∈ S := h.mem_of_at hi
  rw [placeOf, (firstWithin?_eq_some_iff ht h hp).mpr hi, Option.getD_some]

end Distinct
end Pool

/-- The goal with the nodes that a pool has for its starting positions. -/
def Goal.placed (t : α) (pool : Pool α) (g : Goal α) : Goal α :=
  { g with nodes := g.starts.map (pool.placeOf t) }

namespace Solver

variable {t : α} {S : Set (Vec3 α)} {s : Solver α}

/-! ## Placing -/

section Place

variable (ht : Apart t S)

include ht

/-- A position finds the node that lies at it, or else becomes a new one. -/
theorem distinct_place (h : s.nodes.Distinct S) {p : Vec3 α} (hp : p ∈ S) :
    (s.place t p).1.nodes.Distinct S ∧ (s.place t p).1.nodes.At p (s.place t p).2 := by
  rcases place_eq_or t s p with ⟨i, hfound, hplace⟩ | ⟨hnone, hplace⟩
  · rw [hplace]
    exact ⟨h, (h.firstWithin?_eq_some_iff ht hp).mp hfound⟩
  · rw [hplace]
    have hnew := (h.firstWithin?_eq_none_iff ht hp).mp hnone
    refine ⟨⟨fun n hn => ?_, ?_⟩, Node.atRest p, by simp [addNode], rfl⟩
    · rcases Array.mem_push.mp hn with hn | rfl
      exacts [h.mem n hn, hp]
    · rw [addNode, Array.toList_push, List.pairwise_append]
      exact ⟨h.pairwise, List.pairwise_singleton .., by simpa [Node.atRest] using hnew⟩

theorem distinct_placeAll (h : s.nodes.Distinct S) {ps : List (Vec3 α)} (hps : ∀ p ∈ ps, p ∈ S) :
    (s.placeAll t ps).1.nodes.Distinct S ∧
      List.Forall₂ (s.placeAll t ps).1.nodes.At ps (s.placeAll t ps).2 :=
  placeAll_induction (fun _ _ hp h => distinct_place ht h hp)
    (fun _ more _ _ hat => hat.append more) h hps

end Place

/-! ## Attaching -/

omit [Scalar α] in
/-- The nodes lie at these positions, one at each at most, and a goal is on the nodes that lie at its
starting positions. -/
structure Seated (S : Set (Vec3 α)) (s : Solver α) : Prop where
  distinct : s.nodes.Distinct S
  at_starts : ∀ g ∈ s.goals, List.Forall₂ s.nodes.At g.starts g.nodes

omit [Scalar α] in
theorem seated_new (S : Set (Vec3 α)) (params : Params α) : (new params).Seated S where
  distinct := ⟨fun n hn => by simp [new] at hn, List.Pairwise.nil⟩
  at_starts g hg := by simp [new] at hg

namespace Seated

/-- Nodes that are added later come after those that goals refer to. -/
theorem attach (ht : Apart t S) (h : s.Seated S) {g : Goal α} (hg : ∀ p ∈ g.starts, p ∈ S) :
    (s.attach t g).Seated S := by
  obtain ⟨hdistinct, hat⟩ := distinct_placeAll ht h.distinct hg
  refine ⟨hdistinct, fun g' hg' => ?_⟩
  rcases Array.mem_push.mp hg' with hg' | rfl
  · rw [goals_placeAll] at hg'
    obtain ⟨added, _, heq⟩ := exists_placeAll_eq t s g.starts
    change List.Forall₂ (s.placeAll t g.starts).1.nodes.At _ _
    rw [heq, nodes_addNodes]
    exact (h.at_starts g' hg').imp fun p i hi => hi.append _
  · exact hat

theorem attachAll (ht : Apart s.params.mergeThreshold S) (h : s.Seated S) {gs : List (Goal α)}
    (hgs : ∀ g ∈ gs, ∀ p ∈ g.starts, p ∈ S) : (s.attachAll gs).Seated S := by
  induction gs generalizing s with
  | nil => exact h
  | cons g gs ih =>
    obtain ⟨hg, hgs⟩ := List.forall_mem_cons.mp hgs
    have hparams : (s.attach s.params.mergeThreshold g).params = s.params :=
      params_placeAll s.params.mergeThreshold s g.starts
    exact ih (by rwa [hparams]) (h.attach ht hg) hgs

/-- The nodes of a goal can be read off the pool. -/
theorem placed_eq (ht : Apart t S) (h : s.Seated S) {g : Goal α} (hg : g ∈ s.goals) :
    g.detached.placed t s.nodes = g := by
  have hnodes : g.starts.map (s.nodes.placeOf t) = g.nodes := by
    rw [← List.forall₂_eq_eq_eq, List.forall₂_map_left_iff]
    exact (h.at_starts g hg).imp fun p i => h.distinct.placeOf_eq ht
  rw [Goal.placed, Goal.detached]
  simp only [hnodes]

end Seated

/-- The goals of the solver are those attached, on the nodes at their starting positions. -/
theorem goals_attachAll_new {params : Params α} (ht : Apart params.mergeThreshold S)
    {gs : List (Goal α)} (hgs : ∀ g ∈ gs, ∀ p ∈ g.starts, p ∈ S) :
    ((new params).attachAll gs).goals.toList =
      gs.map (Goal.placed params.mergeThreshold ((new params).attachAll gs).nodes) := by
  have hseated := (seated_new S params).attachAll ht hgs
  have hdetached := goals_attachAll (new params) gs
  generalize (new params).attachAll gs = s at hseated hdetached
  replace hdetached : s.goals.toList.map Goal.detached = gs.map Goal.detached := hdetached
  calc s.goals.toList = s.goals.toList.map fun g => g.detached.placed params.mergeThreshold s.nodes :=
        (List.map_id _).symm.trans <| List.map_congr_left fun g hg =>
          (hseated.placed_eq ht (Array.mem_toList_iff.mp hg)).symm
    _ = (s.goals.toList.map Goal.detached).map (Goal.placed params.mergeThreshold s.nodes) := by
        rw [List.map_map, Function.comp_def]
    _ = gs.map (Goal.placed params.mergeThreshold s.nodes) := by
        rw [hdetached, List.map_map]
        rfl

end Solver
end Relaxation
