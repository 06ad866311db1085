import Relaxation.Proofs.Geometry.Vec3
import Relaxation.Proofs.Goal.InPlace
import Relaxation.Proofs.Scalar.Order

/-!
# Lawful parameters

What the constructors ask of parameters holds for as long as a goal is in use (`Goal.stays_lawful`).
A change may supply anything at all, numbers that are none included: what it is refused for it does
not leave behind, and a new bound of a range is held against the old one.
-/

namespace Relaxation

variable {α : Type} [Scalar α]

/-- The parameters of an aim are of use. The bounds of a range are in order, as clamping to the range
asks of them. -/
def Aim.Lawful : Aim α → Prop
  | anchor vector | force vector | directionalWind _ vector => vector.isFinite = true
  | length number | sphereCollision number | sphereStaticLineCollision _ number =>
    Scalar.isFinite number = true ∧ 0 ≤ number
  | clampLength min max =>
    (Scalar.isFinite min = true ∧ Scalar.isFinite max = true) ∧ 0 ≤ min ∧ min ≤ max
  | direction unit =>
    ∃ v : Vec3 α, v.isFinite = true ∧ v.almostZero 1e-12 = false ∧ v.normalize = unit
  | angle size => 0 ≤ size ∧ size ≤ Scalar.pi
  | floor number | constantPressure _ number | constantVolumePressure _ number =>
    Scalar.isFinite number = true
  | equalLengths | parallelLines | colinear | coplanar | cocircular | cospherical | coincident
  | onLine _ | onPlane _ | onCurve _ | onSurface _ | convexPolygonCollision _
  | convexPolygonContainment _ | shapeMatching .. => True

/-- In exact arithmetic a direction is a unit vector. -/
theorem Aim.Lawful.norm_direction {unit : Vec3 ℝ} (h : (Aim.direction unit).Lawful) :
    unit.norm = 1 := by
  obtain ⟨v, -, hlong, rfl⟩ := h
  have htolerance : (0 : ℝ) < 1e-12 := by norm_num
  have hne := Vec3.ne_zero_of_not_almostZero htolerance (ne_true_of_eq_false hlong)
  exact Vec3.norm_normalize hne

namespace Goal

/-- A goal whose parameters are in the range that its kind asks for, and whose weight is finite and
not negative. -/
structure Lawful (g : Goal α) : Prop where
  aim_lawful : g.aim.Lawful
  isFinite_weight : Scalar.isFinite g.weight = true
  weight_nonneg : 0 ≤ g.weight

/-- What happens to a goal while it is in use. A change may be asked for with any values. -/
inductive Use (α : Type) where
  | change (a : Amendment α) (weight : Option α)
  | compute (pool : Pool α)
  | deactivate

/-- The goal after a use of it. A change that is refused counts as well. -/
def use (g : Goal α) : Use α → Goal α
  | .change a weight =>
    match (changeM a weight).run g with
    | .ok _ g' | .error _ g' => g'
  | .compute pool => g.compute pool
  | .deactivate => g.deactivate

end Goal

variable [Scalar.Ordered α]

/-! ## What a check gives -/

theorem Usable.lawful {x : α} (h : Usable x) : Scalar.isFinite x = true ∧ 0 ≤ x := ⟨h.1, h.nonneg⟩

/-- The bounds are compared only after each has been found usable, so they are in order when they
are not found to be inverted. -/
theorem Aim.lawful_clampLength {min max : α} (hmin : Usable min) (hmax : Usable max)
    (h : ¬max < min) : (Aim.clampLength min max).Lawful :=
  ⟨⟨hmin.1, hmax.1⟩, hmin.nonneg, Scalar.Ordered.le_of_not_lt hmax.1 hmin.1 h⟩

theorem Aim.Accepted.lawful {n : Nat} {aim : Aim α} (h : aim.Accepted n) : aim.Lawful := by
  cases aim with
  | anchor _ | force _ | direction _ | angle _ | floor _ | constantPressure _ _
  | constantVolumePressure _ _ | directionalWind _ _ => exact h.2
  | length _ | sphereCollision _ | sphereStaticLineCollision _ _ => exact h.2.lawful
  | clampLength _ _ =>
    obtain ⟨_, hmin, hmax, horder⟩ := h
    exact lawful_clampLength hmin hmax horder
  | _ => trivial

theorem Goal.Made.lawful {g : Goal α} (h : g.Made) : g.Lawful := by
  obtain ⟨_, _, _, rfl, haccepted, hweight⟩ := h.exists_accepted
  exact ⟨haccepted.lawful, hweight.1, hweight.nonneg⟩

/-- An amendment of the kind of a lawful aim leaves it lawful when the values supplied are
acceptable: a value that is not supplied is lawful already. -/
theorem Aim.Lawful.amend {aim aim' : Aim α} {a : Amendment α} (haim : aim.Lawful)
    (hsuits : aim.Suits a) (h : aim.amend a = .ok aim') : aim'.Lawful := by
  have hacceptable := (exists_amend_eq_ok_iff hsuits).mp ⟨aim', h⟩
  cases hsuits with
  | anchor _ new | force _ new | directionalWind _ _ new | angle _ new | floor _ new
  | constantPressure _ _ new | constantVolumePressure _ _ new =>
    obtain ⟨_, h⟩ := Checked.check_bind_eq_ok.mp h
    cases Checked.pure_eq_ok.mp h
    cases new with
    | none => exact haim
    | some x => exact hacceptable x rfl
  | length _ new | sphereCollision _ new | sphereStaticLineCollision _ _ new =>
    obtain ⟨_, h⟩ := Checked.check_bind_eq_ok.mp h
    cases Checked.pure_eq_ok.mp h
    cases new with
    | none => exact haim
    | some x => exact (hacceptable x rfl).lawful
  | clampLength oldMin oldMax =>
    obtain ⟨_, h⟩ := Checked.check_bind_eq_ok.mp h
    cases Checked.pure_eq_ok.mp h
    obtain ⟨hmin, hmax, horder⟩ := hacceptable oldMin oldMax rfl
    exact lawful_clampLength hmin hmax horder
  | direction _ new =>
    obtain ⟨_, rfl⟩ := amend_direction_eq_ok_iff.mp h
    cases new with
    | none => exact haim
    | some v =>
      obtain ⟨hfinite, hlong⟩ := hacceptable v rfl
      exact ⟨v, hfinite, hlong, rfl⟩
  | onLine | onPlane | onCurve | onSurface | shapeMatching =>
    cases h
    trivial
  | plain =>
    rw [amend_plain] at h
    cases h
    exact haim

namespace Goal

/-! ## In use -/

theorem Lawful.change {g g' : Goal α} {a : Amendment α} {weight : Option α} (hg : g.Lawful)
    (h : g.change a weight = .ok g') : g'.Lawful := by
  obtain ⟨aim, haim, hweight, rfl⟩ := change_eq_ok_iff.mp h
  have hlawful : aim.Lawful := by
    obtain hsuits | hsame := g.aim.suits_or_amend_eq a
    · exact hg.aim_lawful.amend hsuits haim
    · cases haim.symm.trans hsame
      exact hg.aim_lawful
  cases weight with
  | none => exact ⟨hlawful, hg.isFinite_weight, hg.weight_nonneg⟩
  | some w => exact ⟨hlawful, (hweight w rfl).1, (hweight w rfl).nonneg⟩

theorem Lawful.use {g : Goal α} (hg : g.Lawful) (u : Use α) : (g.use u).Lawful := by
  cases u with
  | compute pool => exact ⟨hg.aim_lawful, hg.isFinite_weight, hg.weight_nonneg⟩
  | deactivate => exact ⟨hg.aim_lawful, hg.isFinite_weight, hg.weight_nonneg⟩
  | change a weight =>
    simp only [Goal.use, changeM_run]
    cases hchange : g.change a weight with
    | error f => exact hg
    | ok g' => exact hg.change hchange

theorem Lawful.foldl_use {g : Goal α} (hg : g.Lawful) (uses : List (Use α)) :
    (uses.foldl Goal.use g).Lawful := by
  induction uses generalizing g with
  | nil => exact hg
  | cons u uses ih => exact ih (hg.use u)

/-- A goal that a constructor made stays lawful through any uses of it, changes that it refuses among
them. Over the exact reals its direction, if it has one, stays a unit vector. -/
theorem stays_lawful :
    (∀ {α : Type} [Scalar α] [Scalar.Ordered α] {g : Goal α}, g.Made → ∀ uses : List (Use α),
      (uses.foldl use g).Lawful) ∧
    ∀ {g : Goal ℝ}, g.Made → ∀ (uses : List (Use ℝ)) (unit : Vec3 ℝ),
      (uses.foldl use g).aim = .direction unit → unit.norm = 1 := by
  refine ⟨fun hg uses => hg.lawful.foldl_use uses, fun hg uses unit haim => ?_⟩
  have hlawful := (hg.lawful.foldl_use uses).aim_lawful
  rw [haim] at hlawful
  exact hlawful.norm_direction

/-- A range of rounded numbers of which one bound is changed at a time, also to what is no number or
on the wrong side of the other one; and an exact direction that is told to vanish. -/
theorem stays_lawful_refusing :
    (let g := ofAim (.clampLength (Binary64.ofFloat 1) (Binary64.ofFloat 3)) [0, Vec3.xAxis] 1
      let nan := Binary64.ofFloat (0.0 / 0.0)
      let infinity := Binary64.ofFloat (1.0 / 0.0)
      let uses : List (Use Binary64) :=
        [.change (.clampLength (some nan) none) none,
          .change (.clampLength none (some infinity)) none,
          .change (.clampLength (some (Binary64.ofFloat 2)) none) none,
          .change (.clampLength none (some (Binary64.ofFloat 1.5))) none,
          .change (.clampLength none none) (some nan)]
      (uses.foldl use g).Lawful) ∧
    let g : Goal ℝ := ofAim (.direction Vec3.xAxis.normalize) [0, Vec3.xAxis] 1
    let uses : List (Use ℝ) := [.change (.direction (some 0)) none, .deactivate]
    (uses.foldl use g).aim = .direction Vec3.xAxis.normalize ∧
      (Vec3.xAxis : Vec3 ℝ).normalize.norm = 1 := by
  constructor
  · intro g nan infinity uses
    have hmade : g.Made := .clampLength <| clampLength_eq_ok_iff.mpr
      ⟨⟨by decide, by decide⟩, ⟨⟨by decide, by decide⟩, ⟨by decide, by decide⟩, by decide⟩, rfl⟩
    exact stays_lawful.1 hmade uses
  · intro g uses
    have hweight : Usable (1 : ℝ) := ⟨rfl, not_lt.mpr zero_le_one⟩
    have hlong : (Vec3.xAxis : Vec3 ℝ).almostZero 1e-12 = false := by
      simp only [Vec3.almostZero, Vec3.xAxis, Scalar.abs_real, abs_one]
      norm_num
    have hmade : g.Made := .direction (direction_eq_ok_iff.mpr ⟨hweight, rfl, hlong, rfl⟩)
    have haim : (uses.foldl use g).aim = .direction Vec3.xAxis.normalize := by
      simp only [uses, List.foldl_cons, List.foldl_nil, use, changeM_run]
      cases hchange : g.change (.direction (some 0)) none with
      | error f => rfl
      | ok g' =>
        obtain ⟨aim, hamend, _⟩ := change_eq_ok_iff.mp hchange
        obtain ⟨hzero, _⟩ := Aim.amend_direction_eq_ok_iff.mp hamend
        have hlong := (hzero 0 rfl).2
        simp [Vec3.almostZero] at hlong
    exact ⟨haim, stays_lawful.2 hmade uses _ haim⟩

end Goal
end Relaxation
