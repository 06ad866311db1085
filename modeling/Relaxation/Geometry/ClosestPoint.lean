import Relaxation.Geometry.Face

/-!
# Closest points on segments and triangles
-/

namespace Relaxation

variable {α : Type} [Scalar α]

/-- The closest point to `p` on the segment from `a` to `b`; a segment of squared length below
`1e-12` counts as the point `a`. -/
def closestOnSegment (p a b : Vec3 α) : Vec3 α :=
  let ab := b - a
  let lengthSq := ab.normSq
  if lengthSq < 1e-12 then a else a + ab * Scalar.clamp ((p - a).dot ab / lengthSq) 0 1

/-- The closest point to `p` on the triangle `abc`. The regions of space nearest to a corner, an
edge or the interior are told apart by the signs of products of distances along the edges. -/
def closestOnTriangle (p a b c : Vec3 α) : Vec3 α :=
  let ab := b - a
  let ac := c - a
  let ap := p - a
  let d1 := ab.dot ap
  let d2 := ac.dot ap
  let bp := p - b
  let d3 := ab.dot bp
  let d4 := ac.dot bp
  let cp := p - c
  let d5 := ab.dot cp
  let d6 := ac.dot cp
  let va := d3 * d6 - d5 * d4
  let vb := d5 * d2 - d1 * d6
  let vc := d1 * d4 - d3 * d2
  if d1 ≤ 0 ∧ d2 ≤ 0 then a
  else if 0 ≤ d3 ∧ d4 ≤ d3 then b
  else if vc ≤ 0 ∧ 0 ≤ d1 ∧ d3 ≤ 0 then a + ab * (d1 / (d1 - d3))
  else if 0 ≤ d6 ∧ d5 ≤ d6 then c
  else if vb ≤ 0 ∧ 0 ≤ d2 ∧ d6 ≤ 0 then a + ac * (d2 / (d2 - d6))
  else if va ≤ 0 ∧ 0 ≤ d4 - d3 ∧ 0 ≤ d5 - d6 then
    b + (c - b) * ((d4 - d3) / ((d4 - d3) + (d5 - d6)))
  else
    let share := Scalar.recip (va + vb + vc)
    a + ab * (vb * share) + ac * (vc * share)

end Relaxation
