import Relaxation.Proofs.Geometry.Vec3
import Relaxation.Proofs.Solver.Identity

/-!
# Merging positions into nodes

Over the reals, let goals and binders be attached to an empty solver with one merge threshold that is
not zero (`Solver.run_merges`). Then the nodes keep the threshold as a distance from each other, and
every position is tied to the first node within it, which later nodes do not change, for they come
after. So a position that is tied already finds the node that it is tied to.
-/

namespace Relaxation

/-! ## The first node within a distance -/

theorem Vec3.norm_sub_lt_abs_iff {a b : Vec3 ℝ} {t : ℝ} :
    (a - b).norm < |t| ↔ a.distSq b < t * t := by
  rw [← Real.sqrt_mul_self_eq_abs, norm, Scalar.sqrt_real, distSq]
  exact Real.sqrt_lt_sqrt_iff (normSq_nonneg _)

namespace Pool

variable {t : ℝ} {pool : Pool ℝ} {p : Vec3 ℝ} {i j : ℕ}

/-- The node at the place lies within the distance `|t|` of the position, and no node before it
does. -/
structure IsFirstWithin (t : ℝ) (pool : Pool ℝ) (p : Vec3 ℝ) (i : ℕ) : Prop where
  near : ∃ n, pool[i]? = some n ∧ (n.position - p).norm < |t|
  far : ∀ j < i, ∀ n, pool[j]? = some n → |t| ≤ (n.position - p).norm

/-- Squared distances are compared with the square of the threshold, which forgets its sign. -/
theorem firstWithin?_eq_some_iff : pool.firstWithin? t p = some i ↔ pool.IsFirstWithin t p i := by
  rw [firstWithin?, Array.findIdx?_eq_some_iff_getElem]
  constructor
  · rintro ⟨hi, hnear, hfar⟩
    refine ⟨⟨pool[i], Array.getElem?_eq_getElem hi, ?_⟩, fun j hj n hn => ?_⟩
    · exact Vec3.norm_sub_lt_abs_iff.mpr (of_decide_eq_true hnear)
    · obtain ⟨_, rfl⟩ := Array.getElem?_eq_some_iff.mp hn
      rw [← not_lt, Vec3.norm_sub_lt_abs_iff]
      exact fun hlt => hfar j hj (decide_eq_true hlt)
  · rintro ⟨⟨n, hn, hnear⟩, hfar⟩
    obtain ⟨hi, rfl⟩ := Array.getElem?_eq_some_iff.mp hn
    refine ⟨hi, decide_eq_true (Vec3.norm_sub_lt_abs_iff.mp hnear), fun j hj hlt => ?_⟩
    have hge := hfar j hj pool[j] (Array.getElem?_eq_getElem (hj.trans hi))
    exact hge.not_gt (Vec3.norm_sub_lt_abs_iff.mpr (of_decide_eq_true hlt))

theorem firstWithin?_eq_none_iff :
    pool.firstWithin? t p = none ↔ ∀ n ∈ pool, |t| ≤ (n.position - p).norm := by
  rw [firstWithin?, Array.findIdx?_eq_none_iff]
  refine forall₂_congr fun n _ => ?_
  rw [decide_eq_false_iff_not, ← Vec3.norm_sub_lt_abs_iff, not_lt]

theorem IsFirstWithin.unique (hi : pool.IsFirstWithin t p i) (hj : pool.IsFirstWithin t p j) :
    i = j :=
  Option.some.inj ((firstWithin?_eq_some_iff.mpr hi).symm.trans (firstWithin?_eq_some_iff.mpr hj))

/-- Nodes that come after do not take a position over. -/
theorem IsFirstWithin.append (h : pool.IsFirstWithin t p i) (more : Pool ℝ) :
    IsFirstWithin t (pool ++ more) p i := by
  obtain ⟨⟨n, hn, hnear⟩, hfar⟩ := h
  have hi : i < pool.size := (Array.getElem?_eq_some_iff.mp hn).1
  refine ⟨⟨n, by rw [Array.getElem?_append_left hi, hn], hnear⟩, fun j hj m hm => ?_⟩
  rw [Array.getElem?_append_left (hj.trans hi)] at hm
  exact hfar j hj m hm

/-- Distinct nodes keep the distance `|t|`. -/
def Separated (t : ℝ) (pool : Pool ℝ) : Prop :=
  pool.toList.Pairwise fun n m => |t| ≤ (n.position - m.position).norm

end Pool

namespace Solver

/-! ## Placing -/

section

variable {α : Type} [Scalar α]

theorem nodes_addNodes (s : Solver α) (ps : List (Vec3 α)) :
    (s.addNodes ps).nodes = s.nodes ++ (ps.map Node.atRest).toArray := rfl

/-- What placing a position keeps of the pool holds after placing them all, and what it establishes of
the position and its node does too, if nodes that come later leave it as it is. -/
theorem placeAll_induction {t : α} {S : Set (Vec3 α)} {I : Pool α → Prop}
    {P : Pool α → Vec3 α → ℕ → Prop}
    (hplace : ∀ (s : Solver α), ∀ p ∈ S, I s.nodes →
      I (s.place t p).1.nodes ∧ P (s.place t p).1.nodes p (s.place t p).2)
    (happend : ∀ (pool more : Pool α) (p : Vec3 α) (i : ℕ), P pool p i → P (pool ++ more) p i)
    {s : Solver α} (h : I s.nodes) {ps : List (Vec3 α)} (hps : ∀ p ∈ ps, p ∈ S) :
    I (s.placeAll t ps).1.nodes ∧
      List.Forall₂ (P (s.placeAll t ps).1.nodes) ps (s.placeAll t ps).2 := by
  induction ps generalizing s with
  | nil => exact ⟨h, .nil⟩
  | cons p ps ih =>
    obtain ⟨hp, hps⟩ := List.forall_mem_cons.mp hps
    obtain ⟨hkept, hat⟩ := hplace s p hp h
    obtain ⟨hall, hats⟩ := ih hkept hps
    refine ⟨hall, .cons ?_ hats⟩
    -- The other positions are placed on nodes of the pool so far, or on nodes after them.
    obtain ⟨added, _, heq⟩ := exists_placeAll_eq t (s.place t p).1 ps
    change P ((s.place t p).1.placeAll t ps).1.nodes p (s.place t p).2
    rw [heq, nodes_addNodes]
    exact happend _ _ p _ hat

end

variable {t : ℝ} {s : Solver ℝ}

theorem isFirstWithin_place (ht : t ≠ 0) (s : Solver ℝ) (p : Vec3 ℝ) :
    (s.place t p).1.nodes.IsFirstWithin t p (s.place t p).2 := by
  rcases place_eq_or t s p with ⟨i, hfound, hplace⟩ | ⟨hnone, hplace⟩
  · rw [hplace]
    exact Pool.firstWithin?_eq_some_iff.mp hfound
  · rw [hplace]
    refine ⟨⟨Node.atRest p, by simp [addNode], ?_⟩, fun j hj n hn => ?_⟩
    · have hzero : ((Node.atRest p).position - p).norm = 0 := by
        simp [Node.atRest, Vec3.norm, Vec3.normSq_zero]
      rw [hzero]
      exact abs_pos.mpr ht
    · rw [addNode, Array.getElem?_push_lt hj] at hn
      obtain rfl := Option.some.inj hn
      exact Pool.firstWithin?_eq_none_iff.mp hnone _ (Array.getElem_mem hj)

/-- A new node is only made where no node is near. -/
theorem separated_place (h : s.nodes.Separated t) (p : Vec3 ℝ) :
    (s.place t p).1.nodes.Separated t := by
  rcases place_eq_or t s p with ⟨i, _, hplace⟩ | ⟨hnone, hplace⟩
  · rw [hplace]
    exact h
  · rw [hplace, Pool.Separated, addNode, Array.toList_push, List.pairwise_append]
    have hnew := Pool.firstWithin?_eq_none_iff.mp hnone
    exact ⟨h, List.pairwise_singleton .., by simpa [Node.atRest] using hnew⟩

theorem separated_placeAll (ht : t ≠ 0) (h : s.nodes.Separated t) (ps : List (Vec3 ℝ)) :
    (s.placeAll t ps).1.nodes.Separated t ∧
      List.Forall₂ ((s.placeAll t ps).1.nodes.IsFirstWithin t) ps (s.placeAll t ps).2 :=
  placeAll_induction (S := Set.univ)
    (fun s p _ h => ⟨separated_place h p, isFirstWithin_place ht s p⟩)
    (fun _ more _ _ hfirst => hfirst.append more) h fun p _ => Set.mem_univ p

/-- Positions that find a node need no new one. -/
theorem placeAll_eq_self {ps : List (Vec3 ℝ)} (h : ∀ p ∈ ps, ∃ i, s.nodes.IsFirstWithin t p i) :
    (s.placeAll t ps).1 = s := by
  induction ps with
  | nil => rfl
  | cons p ps ih =>
    obtain ⟨i, hi⟩ := h p List.mem_cons_self
    have hplace : s.place t p = (s, i) := by
      rw [place, Pool.firstWithin?_eq_some_iff.mpr hi]
    simp only [placeAll, hplace]
    exact ih fun q hq => h q (List.mem_cons_of_mem p hq)

/-! ## What is tied to the nodes -/

section

variable {α : Type}

/-- A goal or binder of the solver has these starting positions and, for them, these nodes. -/
inductive Ties (s : Solver α) : List (Vec3 α) → List Nat → Prop
  | goal {g : Goal α} : g ∈ s.goals → Ties s g.starts g.nodes
  | binder {b : Binder α} : b ∈ s.binders → Ties s b.starts b.nodes

/-- The position is a starting position of a goal or binder of the solver. -/
def IsTied (s : Solver α) (p : Vec3 α) : Prop := ∃ ps is, s.Ties ps is ∧ p ∈ ps

/-- A goal or binder of the solver has the node for the position. -/
def TiesTo (s : Solver α) (p : Vec3 α) (i : Nat) : Prop := ∃ ps is, s.Ties ps is ∧ (p, i) ∈ ps.zip is

theorem ties_push_goal {s : Solver α} {g : Goal α} {qs : List (Vec3 α)} {is : List Nat} :
    Ties { s with goals := s.goals.push g } qs is ↔
      s.Ties qs is ∨ qs = g.starts ∧ is = g.nodes := by
  constructor
  · rintro (hg | hb)
    · rcases Array.mem_push.mp hg with hg | rfl
      · exact .inl (.goal hg)
      · exact .inr ⟨rfl, rfl⟩
    · exact .inl (.binder hb)
  · rintro ((hg | hb) | ⟨rfl, rfl⟩)
    · exact Ties.goal (Array.mem_push_of_mem g hg)
    · exact Ties.binder hb
    · exact Ties.goal (s := { s with goals := s.goals.push g }) Array.mem_push_self

theorem ties_push_binder {s : Solver α} {b : Binder α} {qs : List (Vec3 α)} {is : List Nat} :
    Ties { s with binders := s.binders.push b } qs is ↔
      s.Ties qs is ∨ qs = b.starts ∧ is = b.nodes := by
  constructor
  · rintro (hg | hb)
    · exact .inl (.goal hg)
    · rcases Array.mem_push.mp hb with hb | rfl
      · exact .inl (.binder hb)
      · exact .inr ⟨rfl, rfl⟩
  · rintro ((hg | hb) | ⟨rfl, rfl⟩)
    · exact Ties.goal hg
    · exact Ties.binder (Array.mem_push_of_mem b hb)
    · exact Ties.binder (s := { s with binders := s.binders.push b }) Array.mem_push_self

variable [Scalar α]

/-- Goals and binders keep their starting positions and nodes along every run. -/
theorem Ties.run {s : Solver α} {ps : List (Vec3 α)} {is : List Nat} (h : s.Ties ps is)
    {ops : List (Operation α)} (hops : .clear ∉ ops) : (s.run ops).Ties ps is := by
  cases h with
  | goal hg =>
    obtain ⟨k, hk⟩ := Array.mem_iff_getElem?.mp hg
    obtain ⟨g', hg', hcontinues⟩ := exists_goal_run hops hk
    rw [← hcontinues.starts_eq, ← hcontinues.nodes_eq]
    exact .goal (Array.mem_of_getElem? hg')
  | binder hb =>
    obtain ⟨k, hk⟩ := Array.mem_iff_getElem?.mp hb
    exact .binder (Array.mem_of_getElem? ((carriesOn_run s hops).binder_eq hk))

/-! ## Attaching -/

/-- What attaching a goal or binder with these starting positions does to a solver. -/
structure Attaches (t : α) (ps : List (Vec3 α)) (s s' : Solver α) : Prop where
  params_eq : s'.params = s.params
  nodes_eq : s'.nodes = (s.placeAll t ps).1.nodes
  ties_iff : ∀ {qs : List (Vec3 α)} {is : List Nat},
    s'.Ties qs is ↔ s.Ties qs is ∨ qs = ps ∧ is = (s.placeAll t ps).2

theorem ties_placeAll {t : α} {s : Solver α} {ps qs : List (Vec3 α)} {is : List Nat} :
    (s.placeAll t ps).1.Ties qs is ↔ s.Ties qs is := by
  obtain ⟨added, _, heq⟩ := exists_placeAll_eq t s ps
  rw [heq]
  constructor
  · rintro (hg | hb)
    · exact .goal hg
    · exact .binder hb
  · rintro (hg | hb)
    · exact Ties.goal hg
    · exact Ties.binder hb

theorem params_placeAll (t : α) (s : Solver α) (ps : List (Vec3 α)) :
    (s.placeAll t ps).1.params = s.params := by
  obtain ⟨added, _, heq⟩ := exists_placeAll_eq t s ps
  rw [heq]
  rfl

theorem attaches_goal {t : α} {s s' : Solver α} {g : Goal α}
    (h : s.addGoalWithThreshold g t = .ok s') : s.Attaches t g.starts s' := by
  obtain ⟨_, _, rfl⟩ := addGoalWithThreshold_eq_ok_iff.mp h
  exact ⟨params_placeAll t s g.starts, rfl, ties_push_goal.trans (or_congr_left ties_placeAll)⟩

theorem attaches_binder (t : α) (s : Solver α) (b : Binder α) :
    s.Attaches t b.starts (s.addBinderWithThreshold b t) :=
  ⟨params_placeAll t s b.starts, rfl, ties_push_binder.trans (or_congr_left ties_placeAll)⟩

end

/-! ## Merged positions -/

/-- The nodes are apart, each lies at a starting position, and goals and binders have for their
starting positions the first nodes within the threshold. -/
structure Merged (t : ℝ) (s : Solver ℝ) : Prop where
  separated : s.nodes.Separated t
  first : ∀ {ps : List (Vec3 ℝ)} {is : List ℕ}, s.Ties ps is →
    List.Forall₂ (s.nodes.IsFirstWithin t) ps is
  occupied : ∀ n ∈ s.nodes, s.IsTied n.position

theorem merged_new (t : ℝ) (params : Params ℝ) : (new params).Merged t where
  separated := List.Pairwise.nil
  first h := by
    rcases h with hg | hb
    · simp [new] at hg
    · simp [new] at hb
  occupied n hn := by simp [new] at hn

namespace Merged

theorem attaches (ht : t ≠ 0) {s' : Solver ℝ} {ps : List (Vec3 ℝ)} (h : s.Merged t)
    (hattach : s.Attaches t ps s') : s'.Merged t := by
  obtain ⟨added, hsub, heq⟩ := exists_placeAll_eq t s ps
  have hnodes : s'.nodes = s.nodes ++ (added.map Node.atRest).toArray := by
    rw [hattach.nodes_eq, heq, nodes_addNodes]
  obtain ⟨hseparated, hfirst⟩ := separated_placeAll ht h.separated ps
  refine ⟨?_, fun {qs is} hties => ?_, fun n hn => ?_⟩
  · rw [hattach.nodes_eq]
    exact hseparated
  · rcases hattach.ties_iff.mp hties with hties | ⟨rfl, rfl⟩
    · rw [hnodes]
      exact (h.first hties).imp fun p i hi => hi.append _
    · rw [hattach.nodes_eq]
      exact hfirst
  · rw [hnodes, Array.mem_append] at hn
    rcases hn with hn | hn
    · obtain ⟨qs, is, hties, hmem⟩ := h.occupied n hn
      exact ⟨qs, is, hattach.ties_iff.mpr (.inl hties), hmem⟩
    · obtain ⟨p, hp, rfl⟩ := List.mem_map.mp (List.mem_toArray.mp hn)
      exact ⟨ps, _, hattach.ties_iff.mpr (.inr ⟨rfl, rfl⟩), hsub.subset hp⟩

theorem addGoals (ht : t ≠ 0) (h : s.Merged t) (hparams : s.params.mergeThreshold = t)
    (gs : List (Goal ℝ)) :
    (s.addGoals gs).1.Merged t ∧ (s.addGoals gs).1.params = s.params := by
  induction gs generalizing s with
  | nil => exact ⟨h, rfl⟩
  | cons g gs ih =>
    rw [Solver.addGoals]
    split
    case h_1 s' hadd =>
      have hattach : s.Attaches t g.starts s' := attaches_goal (hparams ▸ hadd)
      obtain ⟨hmerged, heq⟩ := ih (h.attaches ht hattach) (hattach.params_eq ▸ hparams)
      exact ⟨hmerged, heq.trans hattach.params_eq⟩
    case h_2 => exact ⟨h, rfl⟩

theorem addBinders (ht : t ≠ 0) (h : s.Merged t) (hparams : s.params.mergeThreshold = t)
    (bs : List (Binder ℝ)) :
    (s.addBinders bs).Merged t ∧ (s.addBinders bs).params = s.params := by
  induction bs generalizing s with
  | nil => exact ⟨h, rfl⟩
  | cons b bs ih =>
    have hattach : s.Attaches t b.starts (s.addBinder b) := hparams ▸ attaches_binder _ s b
    obtain ⟨hmerged, heq⟩ := ih (h.attaches ht hattach) (hattach.params_eq ▸ hparams)
    exact ⟨hmerged, heq.trans hattach.params_eq⟩

end Merged
end Solver

/-- The operation attaches goals or binders with the merge threshold `t`, which is its own or else
that of the settings. -/
def Operation.AttachesWith {α : Type} (t : α) (params : Params α) : Operation α → Prop
  | addGoal _ | addGoals _ | addBinder _ | addBinders _ => params.mergeThreshold = t
  | addGoalWithThreshold _ threshold | addBinderWithThreshold _ threshold => threshold = t
  | iterate | iterateN _ | execute _ | reset | clear | changeGoal .. | send _ | configure _ => False

theorem Operation.clear_not_mem {α : Type} {t : α} {params : Params α} {ops : List (Operation α)}
    (h : ∀ op ∈ ops, op.AttachesWith t params) : .clear ∉ ops :=
  fun hclear => h .clear hclear

namespace Solver

variable {t : ℝ} {s : Solver ℝ}

theorem Merged.apply (ht : t ≠ 0) (h : s.Merged t) {op : Operation ℝ}
    (hop : op.AttachesWith t s.params) :
    (op.apply s).Merged t ∧ (op.apply s).params = s.params := by
  cases op with
  | addGoal g =>
    simp only [Operation.apply]
    cases hadd : s.addGoal g with
    | error f => exact ⟨h, rfl⟩
    | ok s' =>
      have hattach : s.Attaches t g.starts s' := attaches_goal (hop ▸ hadd)
      exact ⟨h.attaches ht hattach, hattach.params_eq⟩
  | addGoalWithThreshold g threshold =>
    obtain rfl : threshold = t := hop
    simp only [Operation.apply]
    cases hadd : s.addGoalWithThreshold g threshold with
    | error f => exact ⟨h, rfl⟩
    | ok s' =>
      have hattach := attaches_goal hadd
      exact ⟨h.attaches ht hattach, hattach.params_eq⟩
  | addGoals gs => exact h.addGoals ht hop gs
  | addBinder b => exact h.addBinders ht hop [b]
  | addBinderWithThreshold b threshold =>
    obtain rfl : threshold = t := hop
    have hattach := attaches_binder threshold s b
    exact ⟨h.attaches ht hattach, hattach.params_eq⟩
  | addBinders bs => exact h.addBinders ht hop bs
  | iterate | iterateN | execute | reset | clear | changeGoal | send | configure => exact hop.elim

/-- By induction on the operations, each of which attaches something. -/
theorem Merged.run (ht : t ≠ 0) (h : s.Merged t) {ops : List (Operation ℝ)}
    (hops : ∀ op ∈ ops, op.AttachesWith t s.params) :
    (s.run ops).Merged t ∧ (s.run ops).params = s.params := by
  induction ops generalizing s with
  | nil => exact ⟨h, rfl⟩
  | cons op ops ih =>
    obtain ⟨hmerged, hparams⟩ := h.apply ht (hops op List.mem_cons_self)
    have hrest : ∀ op' ∈ ops, op'.AttachesWith t (op.apply s).params := by
      intro op' hop'
      rw [hparams]
      exact hops op' (List.mem_cons_of_mem op hop')
    obtain ⟨hrun, heq⟩ := ih hmerged hrest
    exact ⟨hrun, heq.trans hparams⟩

theorem Merged.isFirstWithin (h : s.Merged t) {p : Vec3 ℝ} {i : ℕ} (hp : s.TiesTo p i) :
    s.nodes.IsFirstWithin t p i := by
  obtain ⟨ps, is, hties, hmem⟩ := hp
  exact (List.forall₂_iff_zip.mp (h.first hties)).2 hmem

theorem Merged.exists_tiesTo (h : s.Merged t) {p : Vec3 ℝ} (hp : s.IsTied p) :
    ∃ i, s.TiesTo p i := by
  obtain ⟨ps, is, hties, hmem⟩ := hp
  obtain ⟨k, hk, rfl⟩ := List.mem_iff_getElem.mp hmem
  have hlength := (h.first hties).length_eq
  have hzip : k < (ps.zip is).length := by rw [List.length_zip, ← hlength, Nat.min_self]; exact hk
  have hget : (ps.zip is)[k] = (ps[k], is[k]) := List.getElem_zip
  exact ⟨is[k], ps, is, hties, hget ▸ List.getElem_mem hzip⟩

/-- Positions that are tied find the nodes that they are tied to. -/
theorem Merged.placeAll_tied (ht : t ≠ 0) (h : s.Merged t) {ps : List (Vec3 ℝ)}
    (hps : ∀ p ∈ ps, s.IsTied p) :
    (s.placeAll t ps).1 = s ∧
      List.Forall₂ (fun p i => ∀ j, s.TiesTo p j ↔ j = i) ps (s.placeAll t ps).2 := by
  have hself : (s.placeAll t ps).1 = s := by
    refine placeAll_eq_self fun p hp => ?_
    obtain ⟨i, hi⟩ := h.exists_tiesTo (hps p hp)
    exact ⟨i, h.isFirstWithin hi⟩
  have hfirst := (separated_placeAll ht h.separated ps).2
  rw [hself, List.forall₂_iff_zip] at hfirst
  refine ⟨hself, List.forall₂_iff_zip.mpr ⟨hfirst.1, fun {p i} hmem j => ?_⟩⟩
  have hi := hfirst.2 hmem
  constructor
  · exact fun hj => (h.isFirstWithin hj).unique hi
  · rintro rfl
    obtain ⟨k, hk⟩ := h.exists_tiesTo (hps p (List.of_mem_zip hmem).1)
    rwa [← (h.isFirstWithin hk).unique hi]

/-- After any sequence of attachments with one merge threshold, the nodes are apart by it. Every
starting position is tied to the first node within it, now and after more attachments, and every node
lies at a starting position. A goal or binder whose starting positions are tied already brings no
node, and each of them gets the node that it has. -/
theorem run_merges (ht : t ≠ 0) (params : Params ℝ) {ops : List (Operation ℝ)}
    (hops : ∀ op ∈ ops, op.AttachesWith t params) :
    let s := (new params).run ops
    s.nodes.Separated t ∧
    (∀ ps is, s.Ties ps is → ∀ more : List (Operation ℝ),
      (∀ op ∈ more, op.AttachesWith t params) →
      (s.run more).Ties ps is ∧ List.Forall₂ ((s.run more).nodes.IsFirstWithin t) ps is) ∧
    (∀ n ∈ s.nodes, s.IsTied n.position) ∧
    (∀ g s', s.addGoalWithThreshold g t = .ok s' → (∀ p ∈ g.starts, s.IsTied p) →
      ∃ is, s' = { s with goals := s.goals.push { g with nodes := is } } ∧
        List.Forall₂ (fun p i => ∀ j, s.TiesTo p j ↔ j = i) g.starts is) ∧
    ∀ b : Binder ℝ, (∀ p ∈ b.starts, s.IsTied p) →
      ∃ is, s.addBinderWithThreshold b t =
          { s with binders := s.binders.push { b with nodes := is } } ∧
        List.Forall₂ (fun p i => ∀ j, s.TiesTo p j ↔ j = i) b.starts is := by
  intro s
  obtain ⟨hmerged, hparams⟩ := (merged_new t params).run ht hops
  refine ⟨hmerged.separated, fun ps is hties more hmore => ?_, hmerged.occupied,
    fun g s' hadd hg => ?_, fun b hb => ?_⟩
  · have hties' := hties.run (Operation.clear_not_mem hmore)
    exact ⟨hties', ((hmerged.run ht (hparams ▸ hmore)).1).first hties'⟩
  · obtain ⟨hself, hplaces⟩ := hmerged.placeAll_tied ht hg
    obtain ⟨_, _, rfl⟩ := addGoalWithThreshold_eq_ok_iff.mp hadd
    exact ⟨_, by rw [hself], hplaces⟩
  · obtain ⟨hself, hplaces⟩ := hmerged.placeAll_tied ht hb
    refine ⟨_, ?_, hplaces⟩
    simp only [addBinderWithThreshold, hself, s]

/-- With half a unit as the threshold, whose sign does not matter, four positions of one goal make
three nodes: the third is near the first, the last is half a unit from the second and not nearer. A
binder at the last two finds their nodes. -/
theorem run_merges_half :
    let t : ℝ := -1 / 2
    let g : Goal ℝ := Goal.ofAim .coincident [0, ⟨1, 0, 0⟩, ⟨1 / 4, 0, 0⟩, ⟨3 / 2, 0, 0⟩] 1
    let ops : List (Operation ℝ) := [.addGoalWithThreshold g t]
    let s := (new Params.default).run ops
    t ≠ 0 ∧ (∀ op ∈ ops, op.AttachesWith t Params.default) ∧ s.Ties g.starts [0, 1, 0, 2] ∧
      s.nodes.Separated t ∧
      s.addBinderWithThreshold ⟨.points, [⟨3 / 2, 0, 0⟩, ⟨1 / 4, 0, 0⟩], []⟩ t =
        { s with binders := s.binders.push ⟨.points, [⟨3 / 2, 0, 0⟩, ⟨1 / 4, 0, 0⟩], [2, 0]⟩ } := by
  intro t g ops s
  have ht : t ≠ 0 := by norm_num [t]
  have hsq : t * t = 1 / 4 := by norm_num [t]
  have hops : ∀ op ∈ ops, op.AttachesWith t Params.default := by simp [ops, Operation.AttachesWith]
  have hadd : (new Params.default).addGoalWithThreshold g t = .ok _ :=
    addGoalWithThreshold_eq_ok_iff.mpr ⟨Nat.succ_ne_zero 3, rfl, rfl⟩
  have hplaces : ((new Params.default).placeAll t g.starts).2 = [0, 1, 0, 2] := by
    norm_num [g, Goal.ofAim, placeAll, place, new, Pool.firstWithin?, addNode, Node.atRest,
      List.findIdx?_cons, Vec3.distSq, Vec3.normSq, Vec3.dot, hsq]
  have hs : .ok s = (new Params.default).addGoalWithThreshold g t := by
    simp [s, ops, run, Operation.apply, hadd, Except.toOption]
  have hties : s.Ties g.starts [0, 1, 0, 2] :=
    (attaches_goal hs.symm).ties_iff.mpr (.inr ⟨rfl, hplaces.symm⟩)
  obtain ⟨hseparated, _, _, _, hbinder⟩ := run_merges ht Params.default hops
  refine ⟨ht, hops, hties, hseparated, ?_⟩
  have htied : ∀ p ∈ [⟨3 / 2, 0, 0⟩, (⟨1 / 4, 0, 0⟩ : Vec3 ℝ)], s.IsTied p := by
    intro p hp
    refine ⟨_, _, hties, ?_⟩
    rcases List.mem_pair.mp hp with rfl | rfl <;> simp [g, Goal.ofAim]
  have hzero : s.TiesTo ⟨1 / 4, 0, 0⟩ 0 := ⟨_, _, hties, by simp [g, Goal.ofAim]⟩
  have htwo : s.TiesTo ⟨3 / 2, 0, 0⟩ 2 := ⟨_, _, hties, by simp [g, Goal.ofAim]⟩
  obtain ⟨is, heq, his⟩ := hbinder ⟨.points, _, []⟩ htied
  cases his with
  | cons hfirst hrest =>
    cases hrest with
    | cons hsecond hnil =>
      cases hnil
      obtain rfl := (hfirst 2).mp htwo
      obtain rfl := (hsecond 0).mp hzero
      exact heq
end Solver
end Relaxation
