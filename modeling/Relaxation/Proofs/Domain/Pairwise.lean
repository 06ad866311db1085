import Mathlib.Data.Real.Basic
import Relaxation.Goal.Angle
import Relaxation.Goal.Pairwise
import Relaxation.Proofs.Domain.Basic

/-!
# Pairs and angles inside the domain

The rules for the vector between two nodes divide by its length only where it is not too short. The
angle at a vertex has a bisector and an axis for any two arms that are not almost zero: opposite,
parallel and folded arms included (`Domain.bisector?_eq_some`, `Domain.normal_ne_zero`).
-/

namespace Relaxation

namespace Domain

noncomputable section

/-! ## Pairs -/

/-- Each pair of nodes in turn takes one half of the correction that the rule gives. -/
def respondPairs? (rule : Vec3 ℝ → Option (Option (Vec3 ℝ))) (ps : List (Vec3 ℝ)) :
    Option (Response ℝ) := do
  return (← (Pairwise.deltas ps).mapM rule).flatMap Response.split

theorem respondPairs?_eq_some {rule : Vec3 ℝ → Option (Option (Vec3 ℝ))}
    {rule' : Vec3 ℝ → Option (Vec3 ℝ)} (h : ∀ delta, rule delta = some (rule' delta))
    (ps : List (Vec3 ℝ)) : respondPairs? rule ps = some (Pairwise.respond rule' ps) := by
  rw [respondPairs?, mapM_eq_some_map fun delta _ => h delta, Option.bind_eq_bind,
    Option.bind_some, List.flatMap_map]
  rfl

/-- What brings a vector to a length, if it is long enough to have a direction. -/
def toLength? (target : ℝ) (delta : Vec3 ℝ) : Option (Option (Vec3 ℝ)) := do
  let length ← norm? delta
  if length < 1e-12 then return none
  else return some (delta * (1 - (← div? target length)))

theorem toLength?_eq_some (target : ℝ) (delta : Vec3 ℝ) :
    toLength? target delta = some (Pairwise.toLength target delta) := by
  simp only [toLength?, norm?_eq_some, Option.bind_eq_bind, Option.bind_some, Pairwise.toLength]
  split
  case isTrue => rfl
  case isFalse h =>
    rw [div?_eq_some (Vec3.norm_ne_zero_of_not_lt (by norm_num) h)]
    rfl

/-- What brings the length of a vector into a range, if it is out of the range. -/
def intoRange? (min max : ℝ) (delta : Vec3 ℝ) : Option (Option (Vec3 ℝ)) := do
  let length ← norm? delta
  let target ← clamp? length min max
  if target == length then return none else toLength? target delta

/-- The range must not be inverted. -/
theorem intoRange?_eq_some {min max : ℝ} (h : ¬max < min) (delta : Vec3 ℝ) :
    intoRange? min max delta = some (Pairwise.intoRange min max delta) := by
  simp only [intoRange?, norm?_eq_some, clamp?_eq_some h, Option.bind_eq_bind, Option.bind_some,
    Pairwise.intoRange]
  split
  · rfl
  · exact toLength?_eq_some ..

/-- What turns a vector onto a line through the origin, in the nearer sense. -/
def ontoDirection? (direction delta : Vec3 ℝ) : Option (Option (Vec3 ℝ)) :=
  if delta.almostZero 1e-12 then some none
  else do
    let sense : ℝ := if delta.dot direction < 0 then -1 else 1
    return some (delta - direction * (sense * (← norm? delta)))

theorem ontoDirection?_eq_some (direction delta : Vec3 ℝ) :
    ontoDirection? direction delta = some (Pairwise.ontoDirection direction delta) := by
  unfold ontoDirection? Pairwise.ontoDirection
  split
  · rfl
  · rw [norm?_eq_some]
    rfl

/-- The mean length of the vectors from each node of a pair to the other. -/
def meanLength? (ps : List (Vec3 ℝ)) : Option ℝ := do
  let lengths ← (Pairwise.deltas ps).mapM norm?
  div? (Scalar.sum lengths) lengths.length

/-- A mean of lengths needs a pair of nodes. -/
theorem meanLength?_eq_some {ps : List (Vec3 ℝ)} (h : Pairwise.deltas ps ≠ []) :
    meanLength? ps = some (Pairwise.meanLength ps) := by
  have hne : (Pairwise.deltas ps).map Vec3.norm ≠ [] := fun hnil => h (List.map_eq_nil_iff.mp hnil)
  rw [meanLength?, mapM_eq_some_map fun delta _ => norm?_eq_some delta, Option.bind_eq_bind,
    Option.bind_some, div?_eq_some (length_ne_zero hne)]
  rfl

/-- The mean direction of the vectors that are not almost zero, each turned to the side of the first
one. There is none if there are no such vectors, or if they cancel. -/
def commonDirection? (vs : List (Vec3 ℝ)) : Option (Option (Vec3 ℝ)) := do
  let units ← (vs.filter (!Vec3.almostZero 1e-12 ·)).mapM normalize?
  match units with
  | [] => return none
  | first :: _ =>
    let total := Vec3.sum (units.map fun u => if u.dot first < 0 then -u else u)
    if total.almostZero 1e-12 then return none else return some (← normalize? total)

/-- Only vectors that are not almost zero are made unit vectors, their sum included. -/
theorem commonDirection?_eq_some (vs : List (Vec3 ℝ)) :
    commonDirection? vs = some (Pairwise.commonDirection vs) := by
  have hunits : ∀ v ∈ vs.filter (!Vec3.almostZero 1e-12 ·), normalize? v = some v.normalize := by
    intro v hv
    have hlong : ¬v.almostZero 1e-12 = true := by simpa using (List.mem_filter.mp hv).2
    exact normalize?_eq_some (Vec3.ne_zero_of_not_almostZero (by norm_num) hlong)
  rw [commonDirection?, mapM_eq_some_map hunits, Option.bind_eq_bind, Option.bind_some,
    Pairwise.commonDirection]
  generalize (vs.filter (!Vec3.almostZero 1e-12 ·)).map Vec3.normalize = units
  cases units with
  | nil => rfl
  | cons first rest =>
    dsimp only
    split
    case isTrue => rfl
    case isFalse h =>
      rw [normalize?_eq_some (Vec3.ne_zero_of_not_almostZero (by norm_num) h)]
      rfl

/-- The pairs are turned onto their common direction if they have one. -/
def parallelResponse? (n : Nat) (ps : List (Vec3 ℝ)) : Option (Response ℝ) := do
  match ← commonDirection? (Pairwise.deltas ps) with
  | some direction => respondPairs? (ontoDirection? direction) ps
  | none => return Response.idle n

theorem parallelResponse?_eq_some (n : Nat) (ps : List (Vec3 ℝ)) :
    parallelResponse? n ps = some (Pairwise.parallelResponse n ps) := by
  rw [parallelResponse?, commonDirection?_eq_some, Option.bind_eq_bind, Option.bind_some,
    Pairwise.parallelResponse]
  cases Pairwise.commonDirection (Pairwise.deltas ps) with
  | none => rfl
  | some direction => exact respondPairs?_eq_some (ontoDirection?_eq_some direction) ps

/-! ## Angles -/

/-- The direction between two arms. Opposite arms have one across their line, in their plane if they
have one. -/
def bisector? (ba bc : Vec3 ℝ) : Option (Vec3 ℝ) := do
  let ua ← normalize? ba
  let total := ua + (← normalize? bc)
  if total.almostZero 1e-9 then
    let normal := ba.cross bc
    let across := if normal.almostZero 1e-12 then ua.perpendicular else normal.cross ua
    normalize? across
  else normalize? total

/-- Opposite arms have a bisector too: the vector across is perpendicular to the unit vector along
one of them, or to that and their normal. -/
theorem bisector?_eq_some {ba bc : Vec3 ℝ} (hba : ba ≠ 0) (hbc : bc ≠ 0) :
    bisector? ba bc = some (AngleAtVertex.bisector ba bc) := by
  have hua := Vec3.normalize_ne_zero hba
  simp only [bisector?, normalize?_eq_some hba, normalize?_eq_some hbc, Option.bind_eq_bind,
    Option.bind_some, AngleAtVertex.bisector]
  split
  case isTrue =>
    refine normalize?_eq_some ?_
    split
    case isTrue => exact Vec3.perpendicular_ne_zero hua
    case isFalse hnormal =>
      have hnormal := Vec3.ne_zero_of_not_almostZero (by norm_num) hnormal
      refine Vec3.cross_ne_zero hnormal hua ?_
      rw [Vec3.normalize, Vec3.dot_mul, Vec3.cross_dot_left, zero_mul]
  case isFalse htotal =>
    exact normalize?_eq_some (Vec3.ne_zero_of_not_almostZero (by norm_num) htotal)

/-- An axis is found for parallel arms too: across them and the bisector, or across one arm if that
is along the arms as well. -/
theorem normal_ne_zero {ba bc bisector : Vec3 ℝ} (hba : ba ≠ 0) :
    AngleAtVertex.normal ba bc bisector ≠ 0 := by
  unfold AngleAtVertex.normal
  dsimp only
  split_ifs with hacross hacross'
  · exact Vec3.perpendicular_ne_zero (Vec3.normalize_ne_zero hba)
  · exact Vec3.ne_zero_of_not_almostZero (by norm_num) hacross'
  · exact Vec3.ne_zero_of_not_almostZero (by norm_num) hacross

/-- An axis that turns one arm to the other. -/
def normal? (ba bc bisector : Vec3 ℝ) : Option (Vec3 ℝ) :=
  let across := ba.cross bc
  if across.almostZero 1e-12 then do
    let ua ← normalize? ba
    let across := ua.cross bisector
    return if across.almostZero 1e-12 then ua.perpendicular else across
  else some across

theorem normal?_eq_some {ba : Vec3 ℝ} (hba : ba ≠ 0) (bc bisector : Vec3 ℝ) :
    normal? ba bc bisector = some (AngleAtVertex.normal ba bc bisector) := by
  unfold normal? AngleAtVertex.normal
  dsimp only
  split
  · rw [normalize?_eq_some hba]
    rfl
  · rfl

/-- The directions of the arms after half the angle is laid on either side of the bisector. -/
def directions? (angle : ℝ) (ba bc : Vec3 ℝ) : Option (Vec3 ℝ × Vec3 ℝ) := do
  let bisector ← bisector? ba bc
  let normal ← normal? ba bc bisector
  let axis ← divVec? normal (← norm? normal)
  let half := 0.5 * angle
  return (Mat3.rotation axis (-half) * bisector, Mat3.rotation axis half * bisector)

theorem directions?_eq_some {ba bc : Vec3 ℝ} (hba : ba ≠ 0) (hbc : bc ≠ 0) (angle : ℝ) :
    directions? angle ba bc = some (AngleAtVertex.directions angle ba bc) := by
  simp only [directions?, bisector?_eq_some hba hbc, normal?_eq_some hba, norm?_eq_some,
    divVec?_eq_some (Vec3.norm_pos (normal_ne_zero hba)).ne', Option.bind_eq_bind,
    Option.bind_some]
  rfl

/-- The arms keep their lengths and are laid at the angle, if both have a direction. -/
def respondAngle? (angle : ℝ) : List (Vec3 ℝ) → Option (Response ℝ)
  | [a, b, c] =>
    let ba := a - b
    let bc := c - b
    if ba.almostZero 1e-12 || bc.almostZero 1e-12 then some (Response.idle 3)
    else do
      let (toA, toC) ← directions? angle ba bc
      return [some (b + toA * (← norm? ba) - a), none, some (b + toC * (← norm? bc) - c)]
  | ps => some (Response.idle ps.length)

/-- There is no response unless both arms can be divided by their lengths. -/
theorem respondAngle?_eq_some (angle : ℝ) (ps : List (Vec3 ℝ)) :
    respondAngle? angle ps = some (AngleAtVertex.respond angle ps) := by
  match ps with
  | [a, b, c] =>
    simp only [respondAngle?, AngleAtVertex.respond]
    split
    case isTrue => rfl
    case isFalse harms =>
      obtain ⟨hba, hbc⟩ := not_or.mp (mt Bool.or_eq_true_iff.mpr harms)
      rw [directions?_eq_some (Vec3.ne_zero_of_not_almostZero (by norm_num) hba)
        (Vec3.ne_zero_of_not_almostZero (by norm_num) hbc)]
      simp only [norm?_eq_some, Option.bind_eq_bind, Option.bind_some]
      rfl
  | [] | [_] | [_, _] | _ :: _ :: _ :: _ :: _ => rfl

end

end Domain
end Relaxation
