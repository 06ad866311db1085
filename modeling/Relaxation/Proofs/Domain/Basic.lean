import Mathlib.Data.Real.Basic
import Relaxation.Goal.Response
import Relaxation.Proofs.Geometry.Vec2
import Relaxation.Proofs.Geometry.Vec3
import Relaxation.Proofs.Lists

/-!
# Arithmetic inside its domain

Computations over the reals once more, in a way that may fail: a quotient by zero, a root of a
negative number and a clamp between bounds in the wrong order have no value, and neither has
anything that carries one of them out, be the result used or not. What contains no such operation
stays as it is. Each function here has the value of the one it is named after under the condition
that its lemma states; lengths and means have one always.
-/

namespace Relaxation.Domain

noncomputable section

/-! ## Numbers -/

/-- The quotient by a number other than zero. -/
def div? (a b : ℝ) : Option ℝ := if b = 0 then none else some (a / b)

/-- The reciprocal of a number other than zero. -/
def recip? (a : ℝ) : Option ℝ := div? 1 a

/-- The root of a number that is not negative. -/
def sqrt? (a : ℝ) : Option ℝ := if a < 0 then none else some (Scalar.sqrt a)

/-- The nearest number between two bounds, the lower one first. -/
def clamp? (x lo hi : ℝ) : Option ℝ :=
  if hi < lo then none else some (Scalar.clamp x lo hi)

theorem div?_eq_some {b : ℝ} (h : b ≠ 0) (a : ℝ) : div? a b = some (a / b) := if_neg h

theorem recip?_eq_some {a : ℝ} (h : a ≠ 0) : recip? a = some (Scalar.recip a) := div?_eq_some h 1

theorem sqrt?_eq_some {a : ℝ} (h : 0 ≤ a) : sqrt? a = some (Scalar.sqrt a) := if_neg h.not_gt

theorem clamp?_eq_some {lo hi : ℝ} (h : ¬hi < lo) (x : ℝ) :
    clamp? x lo hi = some (Scalar.clamp x lo hi) := if_neg h

/-- A mean over items divides by their number, so there has to be one. -/
theorem length_ne_zero {β : Type} {bs : List β} (h : bs ≠ []) : (bs.length : ℝ) ≠ 0 :=
  Nat.cast_ne_zero.mpr (List.length_eq_zero_iff.not.mpr h)

/-! ## Vectors -/

/-- The length of a vector, a root of its square. -/
def norm? (a : Vec3 ℝ) : Option ℝ := sqrt? a.normSq

/-- A vector divided entry by entry. -/
def divVec? (a : Vec3 ℝ) (t : ℝ) : Option (Vec3 ℝ) := do
  return ⟨← div? a.x t, ← div? a.y t, ← div? a.z t⟩

/-- The unit vector along another one, which must not vanish. -/
def normalize? (a : Vec3 ℝ) : Option (Vec3 ℝ) := do
  return a * (← recip? (← norm? a))

/-- The mean of the points; without points it is the origin, and nothing is divided. -/
def centroid? (ps : List (Vec3 ℝ)) : Option (Vec3 ℝ) :=
  if ps.isEmpty then some 0 else divVec? (Vec3.sum ps) ps.length

/-- The length of a vector of the plane. -/
def planNorm? (a : Vec2 ℝ) : Option ℝ := sqrt? (a.dot a)

/-- A vector of the plane divided entry by entry. -/
def divPlan? (a : Vec2 ℝ) (t : ℝ) : Option (Vec2 ℝ) := do
  return ⟨← div? a.x t, ← div? a.y t⟩

/-- The mean of points of the plane, of which there has to be one. -/
def planCentroid? (ps : List (Vec2 ℝ)) : Option (Vec2 ℝ) :=
  divPlan? (Vec2.sum ps) ps.length

/-- A sum of squares always has a root. -/
theorem norm?_eq_some (a : Vec3 ℝ) : norm? a = some a.norm := sqrt?_eq_some a.normSq_nonneg

theorem divVec?_eq_some {t : ℝ} (h : t ≠ 0) (a : Vec3 ℝ) : divVec? a t = some (a / t) := by
  simp only [divVec?, div?_eq_some h]
  rfl

theorem normalize?_eq_some {a : Vec3 ℝ} (h : a ≠ 0) : normalize? a = some a.normalize := by
  simp only [normalize?, norm?_eq_some, Option.bind_eq_bind, Option.bind_some,
    recip?_eq_some (Vec3.norm_pos h).ne']
  rfl

theorem centroid?_eq_some (ps : List (Vec3 ℝ)) : centroid? ps = some (Vec3.centroid ps) := by
  unfold centroid? Vec3.centroid
  split
  case isTrue => rfl
  case isFalse h => exact divVec?_eq_some (length_ne_zero fun hnil => h (by rw [hnil]; rfl)) _

theorem planNorm?_eq_some (a : Vec2 ℝ) : planNorm? a = some a.norm :=
  sqrt?_eq_some a.dot_self_nonneg

theorem divPlan?_eq_some {t : ℝ} (h : t ≠ 0) (a : Vec2 ℝ) : divPlan? a t = some (a / t) := by
  simp only [divPlan?, div?_eq_some h]
  rfl

theorem planCentroid?_eq_some {ps : List (Vec2 ℝ)} (h : ps ≠ []) :
    planCentroid? ps = some (Vec2.centroid ps) :=
  divPlan?_eq_some (length_ne_zero h) _

/-! ## Lists -/

section Lists

variable {β γ : Type}

/-- The items that a rule gives, one or none for each item of the list. -/
def filterMap? (f : β → Option (Option γ)) (bs : List β) : Option (List γ) := do
  return (← bs.mapM f).filterMap id

theorem filterMap?_eq_some {f : β → Option (Option γ)} {g : β → Option γ} {bs : List β}
    (h : ∀ b ∈ bs, f b = some (g b)) : filterMap? f bs = some (bs.filterMap g) := by
  rw [filterMap?, mapM_eq_some_map h, Option.bind_eq_bind, Option.bind_some, List.filterMap_map]
  rfl

end Lists

/-! ## Responses -/

/-- The mean of the corrections of a node, none if there are no corrections. -/
def averaged? (corrections : List (Vec3 ℝ)) : Option (Option (Vec3 ℝ)) :=
  if corrections.isEmpty then some none
  else (divVec? (Vec3.sum corrections) corrections.length).map some

/-- The mean is taken only over corrections that are there. -/
theorem averaged?_eq_some (corrections : List (Vec3 ℝ)) :
    averaged? corrections = some (Response.averaged corrections) := by
  unfold averaged? Response.averaged
  split
  case isTrue => rfl
  case isFalse h =>
    rw [divVec?_eq_some (length_ne_zero fun hnil => h (by rw [hnil]; rfl)), Option.map_some]

/-- The displacements of the nodes onto their images, which may have no value. -/
def project? (target : Vec3 ℝ → Option (Vec3 ℝ)) (ps : List (Vec3 ℝ)) : Option (Response ℝ) :=
  ps.mapM fun p => do return some ((← target p) - p)

theorem project?_eq_some {target : Vec3 ℝ → Option (Vec3 ℝ)} {target' : Vec3 ℝ → Vec3 ℝ}
    (h : ∀ p, target p = some (target' p)) (ps : List (Vec3 ℝ)) :
    project? target ps = some (Response.project target' ps) :=
  mapM_eq_some_map fun p _ => by rw [h]; rfl

/-- The corrections of each item by those before and after it, where a pair may have no push. -/
def mutualCorrections? {β : Type} (push : β → β → Option (Option (Vec3 ℝ))) (items : List β) :
    Option (List (List (Vec3 ℝ))) :=
  items.zipIdx.mapM fun (x, i) => do
    let earlier ← filterMap? (push · x) (items.take i)
    let later ← filterMap? (push x) (items.drop (i + 1))
    return earlier ++ later.map (-·)

theorem mutualCorrections?_eq_some {β : Type} {push : β → β → Option (Option (Vec3 ℝ))}
    {push' : β → β → Option (Vec3 ℝ)} {items : List β}
    (h : ∀ x ∈ items, ∀ y ∈ items, push x y = some (push' x y)) :
    mutualCorrections? push items = some (mutualCorrections push' items) := by
  refine mapM_eq_some_map fun (x, i) hx => ?_
  have hx : x ∈ items := List.fst_mem_of_mem_zipIdx hx
  have hearlier : filterMap? (push · x) (items.take i) =
      some ((items.take i).filterMap (push' · x)) :=
    filterMap?_eq_some fun y hy => h y (List.mem_of_mem_take hy) x hx
  have hlater : filterMap? (push x) (items.drop (i + 1)) =
      some ((items.drop (i + 1)).filterMap (push' x)) :=
    filterMap?_eq_some fun y hy => h x hx y (List.mem_of_mem_drop hy)
  simp only [hearlier, hlater, Option.bind_eq_bind, Option.bind_some, Option.pure_def]
  rw [List.map_filterMap]

end

end Relaxation.Domain
