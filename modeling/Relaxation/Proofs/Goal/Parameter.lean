import Relaxation.Proofs.Goal.Built

/-!
# Parameters of goals

An aim taken apart: the parameters that a change can set, by name (`Aim.setting?`), and the fixture that
stays with a goal for good (`Aim.fixture`). With the kind of the aim they are all there is to it
(`Aim.ext_settings`). So what a change does is told by the values that it supplies
(`Amendment.supplied?`): if they are acceptable, the parameters supplied take them and the others keep
what they had (`Aim.amend_eq_ok_iff`).
-/

namespace Relaxation

variable {α : Type}

/-- The parameters that a change can set. -/
inductive Parameter where
  | target
  | push
  | rest
  | min
  | max
  | along
  | size
  | line
  | plane
  | curve
  | surface
  | height
  | radius
  | pressure
  | amount
  | wind
  | allowScaling

/-- The value of a parameter. -/
inductive Setting (α : Type) where
  | number (x : α)
  | vector (v : Vec3 α)
  | line (l : Line α)
  | plane (p : Plane α)
  | shape (s : Shape α)
  | flag (b : Bool)

/-- What a goal is made with and no change touches. -/
inductive Fixture (α : Type) where
  | nothing
  | segments (segments : List (Vec3 α × Vec3 α))
  | sizes (sizes : List Nat)
  | boundary (boundary : List (Vec2 α))
  | faces (faces : List Face)
  | shape (shape : TargetShape α)

namespace Aim

/-- The value of a parameter, if the aim has it. -/
def setting? : Aim α → Parameter → Option (Setting α)
  | anchor target, .target => some (.vector target)
  | force push, .push => some (.vector push)
  | length rest, .rest => some (.number rest)
  | clampLength min _, .min => some (.number min)
  | clampLength _ max, .max => some (.number max)
  | direction unit, .along => some (.vector unit)
  | angle size, .size => some (.number size)
  | onLine line, .line => some (.line line)
  | onPlane plane, .plane => some (.plane plane)
  | onCurve curve, .curve => some (.shape curve)
  | onSurface surface, .surface => some (.shape surface)
  | floor height, .height => some (.number height)
  | sphereCollision radius, .radius => some (.number radius)
  | sphereStaticLineCollision _ radius, .radius => some (.number radius)
  | constantPressure _ pressure, .pressure => some (.number pressure)
  | constantVolumePressure _ amount, .amount => some (.number amount)
  | directionalWind _ wind, .wind => some (.vector wind)
  | shapeMatching _ allowScaling, .allowScaling => some (.flag allowScaling)
  | _, _ => none

/-- What an aim is built with and no change can reach. -/
def fixture : Aim α → Fixture α
  | sphereStaticLineCollision segments _ => .segments segments
  | convexPolygonCollision sizes => .sizes sizes
  | convexPolygonContainment boundary => .boundary boundary
  | constantPressure faces _ | constantVolumePressure faces _ | directionalWind faces _ =>
    .faces faces
  | shapeMatching shape _ => .shape shape
  | _ => .nothing

/-- Kind, fixture and settings are all there is to an aim. -/
theorem ext_settings {aim aim' : Aim α} (hkind : aim.kind = aim'.kind)
    (hfixture : aim.fixture = aim'.fixture) (hsetting : ∀ p, aim.setting? p = aim'.setting? p) :
    aim = aim' := by
  -- Only aims of one kind are left once `hkind` is looked at.
  cases aim with
  | equalLengths | parallelLines | colinear | coplanar | cocircular | cospherical | coincident =>
    cases aim' <;> first | rfl | cases hkind
  | convexPolygonCollision _ | convexPolygonContainment _ =>
    cases aim' <;> first | (cases hfixture; rfl) | cases hkind
  | anchor _ => cases aim' <;> first | (cases hsetting .target; rfl) | cases hkind
  | force _ => cases aim' <;> first | (cases hsetting .push; rfl) | cases hkind
  | length _ => cases aim' <;> first | (cases hsetting .rest; rfl) | cases hkind
  | clampLength _ _ =>
    cases aim' <;> first | (cases hsetting .min; cases hsetting .max; rfl) | cases hkind
  | direction _ => cases aim' <;> first | (cases hsetting .along; rfl) | cases hkind
  | angle _ => cases aim' <;> first | (cases hsetting .size; rfl) | cases hkind
  | onLine _ => cases aim' <;> first | (cases hsetting .line; rfl) | cases hkind
  | onPlane _ => cases aim' <;> first | (cases hsetting .plane; rfl) | cases hkind
  | onCurve _ => cases aim' <;> first | (cases hsetting .curve; rfl) | cases hkind
  | onSurface _ => cases aim' <;> first | (cases hsetting .surface; rfl) | cases hkind
  | floor _ => cases aim' <;> first | (cases hsetting .height; rfl) | cases hkind
  | sphereCollision _ => cases aim' <;> first | (cases hsetting .radius; rfl) | cases hkind
  | sphereStaticLineCollision _ _ =>
    cases aim' <;> first | (cases hfixture; cases hsetting .radius; rfl) | cases hkind
  | constantPressure _ _ =>
    cases aim' <;> first | (cases hfixture; cases hsetting .pressure; rfl) | cases hkind
  | constantVolumePressure _ _ =>
    cases aim' <;> first | (cases hfixture; cases hsetting .amount; rfl) | cases hkind
  | directionalWind _ _ =>
    cases aim' <;> first | (cases hfixture; cases hsetting .wind; rfl) | cases hkind
  | shapeMatching _ _ =>
    cases aim' <;> first | (cases hfixture; cases hsetting .allowScaling; rfl) | cases hkind

/-- The amendment is for the kind of the aim. -/
inductive Suits : Aim α → Amendment α → Prop
  | anchor (old new) : Suits (anchor old) (.anchor new)
  | force (old new) : Suits (force old) (.force new)
  | length (old new) : Suits (length old) (.length new)
  | clampLength (oldMin oldMax min max) : Suits (clampLength oldMin oldMax) (.clampLength min max)
  | direction (old new) : Suits (direction old) (.direction new)
  | angle (old new) : Suits (angle old) (.angle new)
  | onLine (old new) : Suits (onLine old) (.onLine new)
  | onPlane (old new) : Suits (onPlane old) (.onPlane new)
  | onCurve (old new) : Suits (onCurve old) (.onCurve new)
  | onSurface (old new) : Suits (onSurface old) (.onSurface new)
  | floor (old new) : Suits (floor old) (.floor new)
  | sphereCollision (old new) : Suits (sphereCollision old) (.sphereCollision new)
  | sphereStaticLineCollision (segments old new) :
    Suits (sphereStaticLineCollision segments old) (.sphereStaticLineCollision new)
  | constantPressure (faces old new) : Suits (constantPressure faces old) (.constantPressure new)
  | constantVolumePressure (faces old new) :
    Suits (constantVolumePressure faces old) (.constantVolumePressure new)
  | directionalWind (faces old new) : Suits (directionalWind faces old) (.directionalWind new)
  | shapeMatching (shape old new) : Suits (shapeMatching shape old) (.shapeMatching new)
  | plain (aim) : Suits aim (.plain aim.kind)

theorem suits_of_kind_eq {aim : Aim α} {a : Amendment α} (h : aim.kind = a.kind) :
    aim.Suits a := by
  cases a with
  | plain kind => cases h; exact .plain aim
  | anchor new => cases aim <;> first | exact .anchor .. | cases h
  | force new => cases aim <;> first | exact .force .. | cases h
  | length new => cases aim <;> first | exact .length .. | cases h
  | clampLength min max => cases aim <;> first | exact .clampLength .. | cases h
  | direction new => cases aim <;> first | exact .direction .. | cases h
  | angle new => cases aim <;> first | exact .angle .. | cases h
  | onLine new => cases aim <;> first | exact .onLine .. | cases h
  | onPlane new => cases aim <;> first | exact .onPlane .. | cases h
  | onCurve new => cases aim <;> first | exact .onCurve .. | cases h
  | onSurface new => cases aim <;> first | exact .onSurface .. | cases h
  | floor new => cases aim <;> first | exact .floor .. | cases h
  | sphereCollision new => cases aim <;> first | exact .sphereCollision .. | cases h
  | sphereStaticLineCollision new =>
    cases aim <;> first | exact .sphereStaticLineCollision .. | cases h
  | constantPressure new => cases aim <;> first | exact .constantPressure .. | cases h
  | constantVolumePressure new => cases aim <;> first | exact .constantVolumePressure .. | cases h
  | directionalWind new => cases aim <;> first | exact .directionalWind .. | cases h
  | shapeMatching new => cases aim <;> first | exact .shapeMatching .. | cases h

end Aim

variable [Scalar α]

namespace Amendment

/-- The value that the amendment supplies for a parameter. A direction is stored as a unit vector. -/
def supplied? : Amendment α → Parameter → Option (Setting α)
  | anchor target, .target => target.map .vector
  | force push, .push => push.map .vector
  | length rest, .rest => rest.map .number
  | clampLength min _, .min => min.map .number
  | clampLength _ max, .max => max.map .number
  | direction along, .along => along.map fun v => .vector v.normalize
  | angle size, .size => size.map .number
  | onLine line, .line => line.map .line
  | onPlane plane, .plane => plane.map .plane
  | onCurve curve, .curve => curve.map .shape
  | onSurface surface, .surface => surface.map .shape
  | floor height, .height => height.map .number
  | sphereCollision radius, .radius => radius.map .number
  | sphereStaticLineCollision radius, .radius => radius.map .number
  | constantPressure pressure, .pressure => pressure.map .number
  | constantVolumePressure amount, .amount => amount.map .number
  | directionalWind wind, .wind => wind.map .vector
  | shapeMatching allowScaling, .allowScaling => allowScaling.map .flag
  | _, _ => none

/-- The values supplied are of use to the aim. A bound of a range has to suit the other bound, which
may be the old one. -/
def Acceptable (aim : Aim α) : Amendment α → Prop
  | anchor vector | force vector | directionalWind vector => ∀ v ∈ vector, v.isFinite = true
  | length number | sphereCollision number | sphereStaticLineCollision number =>
    ∀ x ∈ number, Usable x
  | clampLength min max => ∀ oldMin oldMax, aim = .clampLength oldMin oldMax →
    Usable (min.getD oldMin) ∧ Usable (max.getD oldMax) ∧ ¬max.getD oldMax < min.getD oldMin
  | direction along => ∀ v ∈ along, v.isFinite = true ∧ v.almostZero 1e-12 = false
  | angle size => ∀ x ∈ size, 0 ≤ x ∧ x ≤ Scalar.pi
  | floor number | constantPressure number | constantVolumePressure number =>
    ∀ x ∈ number, Scalar.isFinite x = true
  | onLine _ | onPlane _ | onCurve _ | onSurface _ | shapeMatching _ | plain _ => True

end Amendment

namespace Aim

/-- The second aim is the first one with the values that an amendment supplies. -/
structure Takes (aim : Aim α) (a : Amendment α) (aim' : Aim α) : Prop where
  kind_eq : aim'.kind = aim.kind
  fixture_eq : aim'.fixture = aim.fixture
  setting_eq : ∀ p, aim'.setting? p = (a.supplied? p).or (aim.setting? p)

/-- An amendment leaves nothing open. -/
theorem Takes.unique {aim aim₁ aim₂ : Aim α} {a : Amendment α} (h₁ : aim.Takes a aim₁)
    (h₂ : aim.Takes a aim₂) : aim₁ = aim₂ := by
  apply ext_settings
  · rw [h₁.kind_eq, h₂.kind_eq]
  · rw [h₁.fixture_eq, h₂.fixture_eq]
  · intro p
    rw [h₁.setting_eq, h₂.setting_eq]

/-- An amendment for another kind of aim changes nothing. -/
theorem suits_or_amend_eq (aim : Aim α) (a : Amendment α) : aim.Suits a ∨ aim.amend a = .ok aim := by
  fun_cases Aim.amend aim a
  case case18 => exact .inr rfl
  all_goals exact .inl (by constructor)

theorem amend_plain (aim : Aim α) (kind : GoalKind) : aim.amend (.plain kind) = .ok aim := by
  cases aim <;> rfl

theorem amend_direction_eq_ok_iff {old : Vec3 α} {along : Option (Vec3 α)} {aim' : Aim α} :
    (direction old).amend (.direction along) = .ok aim' ↔
      (∀ v ∈ along, v.isFinite = true ∧ v.almostZero 1e-12 = false) ∧
        direction ((along.map Vec3.normalize).getD old) = aim' := by
  rw [amend, Checked.bind_eq_ok]
  simp only [Checked.pure_eq_ok]
  cases along with
  | none => simp [pure, Except.pure]
  | some v =>
    rw [Option.mapM_some]
    cases hv : Goal.checkedDirection v with
    | error f =>
      have hfail : ¬∃ u, Goal.checkedDirection v = .ok u := by simp [hv]
      simp only [Goal.checkedDirection_eq_ok_iff, exists_and_left, exists_eq', and_true] at hfail
      simp [Functor.map, Except.map, hfail]
    | ok u =>
      obtain ⟨hfinite, hzero, rfl⟩ := Goal.checkedDirection_eq_ok_iff.mp hv
      simp [Functor.map, Except.map, hfinite, hzero]

variable {aim aim' : Aim α} {a : Amendment α}

/-- An amendment is accepted exactly when all values that it supplies are of use. -/
theorem exists_amend_eq_ok_iff (h : aim.Suits a) :
    (∃ aim', aim.amend a = .ok aim') ↔ a.Acceptable aim := by
  have hcheck : ∀ {x : Checked α Unit} {b : Aim α},
      (∃ c, (do x; return b) = Except.ok c) ↔ x = .ok () := by
    intro x b
    simp only [Checked.check_bind_eq_ok, Checked.pure_eq_ok, exists_and_left, exists_eq', and_true]
  cases h with
  | anchor | force | directionalWind =>
    rw [amend, hcheck, Checked.option_forM_eq_ok_iff]
    simp only [requireFinitePoint_eq_ok_iff, Amendment.Acceptable]
  | length | sphereCollision | sphereStaticLineCollision =>
    rw [amend, hcheck, Checked.option_forM_eq_ok_iff]
    simp only [requireNonNegative_eq_ok_iff, Amendment.Acceptable]
  | floor | constantPressure | constantVolumePressure =>
    rw [amend, hcheck, Checked.option_forM_eq_ok_iff]
    simp only [requireFinite_eq_ok_iff, Amendment.Acceptable]
  | angle =>
    rw [amend, hcheck, Checked.option_forM_eq_ok_iff]
    simp only [Goal.checkAngle_eq_ok_iff, Amendment.Acceptable]
  | clampLength =>
    rw [amend, hcheck, Goal.checkRange_eq_ok_iff]
    simp only [Amendment.Acceptable, clampLength.injEq, and_imp, forall_apply_eq_imp_iff,
      forall_eq']
  | direction =>
    simp only [amend_direction_eq_ok_iff, exists_and_left, exists_eq', and_true,
      Amendment.Acceptable]
  | onLine | onPlane | onCurve | onSurface | shapeMatching =>
    exact ⟨fun _ => trivial, fun _ => ⟨_, rfl⟩⟩
  | plain => exact ⟨fun _ => trivial, fun _ => ⟨aim, amend_plain aim _⟩⟩

/-- An amendment that is accepted sets what it supplies and leaves the rest. -/
theorem takes_of_amend (hsuits : aim.Suits a) (h : aim.amend a = .ok aim') : aim.Takes a aim' := by
  cases hsuits with
  | anchor _ new | force _ new | length _ new | angle _ new | floor _ new | sphereCollision _ new
  | sphereStaticLineCollision _ _ new | constantPressure _ _ new | constantVolumePressure _ _ new
  | directionalWind _ _ new =>
    obtain ⟨_, h⟩ := Checked.check_bind_eq_ok.mp h
    cases Checked.pure_eq_ok.mp h
    refine ⟨rfl, rfl, fun p => ?_⟩
    cases p <;> cases new <;> rfl
  | clampLength _ _ min max =>
    obtain ⟨_, h⟩ := Checked.check_bind_eq_ok.mp h
    cases Checked.pure_eq_ok.mp h
    refine ⟨rfl, rfl, fun p => ?_⟩
    cases p <;> cases min <;> cases max <;> rfl
  | direction _ new =>
    obtain ⟨_, rfl⟩ := amend_direction_eq_ok_iff.mp h
    refine ⟨rfl, rfl, fun p => ?_⟩
    cases p <;> cases new <;> rfl
  | onLine _ new | onPlane _ new | onCurve _ new | onSurface _ new | shapeMatching _ _ new =>
    cases h
    refine ⟨rfl, rfl, fun p => ?_⟩
    cases p <;> cases new <;> rfl
  | plain =>
    rw [amend_plain] at h
    cases h
    refine ⟨rfl, rfl, fun p => ?_⟩
    cases p <;> rfl

/-- An amendment leaves the kind and the fixture alone, whatever kind of aim it is for. -/
theorem kind_and_fixture_amend (h : aim.amend a = .ok aim') :
    aim'.kind = aim.kind ∧ aim'.fixture = aim.fixture := by
  obtain hsuits | hsame := aim.suits_or_amend_eq a
  · exact ⟨(takes_of_amend hsuits h).kind_eq, (takes_of_amend hsuits h).fixture_eq⟩
  · cases h.symm.trans hsame
    exact ⟨rfl, rfl⟩

/-- A change never turns a goal into one of another kind. -/
theorem kind_amend (h : aim.amend a = .ok aim') : aim'.kind = aim.kind :=
  (kind_and_fixture_amend h).1

theorem fixture_amend (h : aim.amend a = .ok aim') : aim'.fixture = aim.fixture :=
  (kind_and_fixture_amend h).2

/-- An aim is amended exactly when the values supplied are acceptable, and then it takes them. -/
theorem amend_eq_ok_iff (h : aim.Suits a) :
    aim.amend a = .ok aim' ↔ a.Acceptable aim ∧ aim.Takes a aim' := by
  constructor
  · intro hamend
    exact ⟨(exists_amend_eq_ok_iff h).mp ⟨aim', hamend⟩, takes_of_amend h hamend⟩
  · rintro ⟨hacceptable, htakes⟩
    obtain ⟨aim₁, hamend⟩ := (exists_amend_eq_ok_iff h).mpr hacceptable
    rw [hamend, (takes_of_amend h hamend).unique htakes]

end Aim
end Relaxation
