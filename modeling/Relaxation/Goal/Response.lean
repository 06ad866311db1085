import Relaxation.Geometry.Vec3

/-!
# Responses

A goal answers the positions of its nodes with a response: for each node a displacement, or
nothing when the goal does not touch the node. A response may be shorter than the list of nodes;
then what the goal asked of the others before still holds. Most goals are built from a few
skeletons, which are the definitions here: projection of every node, symmetric corrections of
pairs, and averaged corrections of nodes that violate something.
-/

namespace Relaxation

/-- The displacements that a goal asks for, node by node. -/
abbrev Response (α : Type) := List (Option (Vec3 α))

/-- A derived value that a goal reports about the current positions. -/
inductive Reading (α : Type) where
  | scalar (x : α)
  | point (p : Vec3 α)
  | vector (v : Vec3 α)
  deriving Repr, DecidableEq

namespace Response

variable {α : Type} [Scalar α]

/-- The response that touches none of `n` nodes. -/
def idle (n : Nat) : Response α := List.replicate n none

/-- Every node moves onto its image under `target`. -/
def project (target : Vec3 α → Vec3 α) (ps : List (Vec3 α)) : Response α :=
  ps.map fun p => some (target p - p)

/-- A correction of the vector between two nodes, half of it taken by each; with none, the pair
is left alone. -/
def split : Option (Vec3 α) → Response α
  | some correction => [some (correction * (0.5 : α)), some (-(correction * (0.5 : α)))]
  | none => [none, none]

/-- The mean of the corrections of one node, which is left alone when there is none. -/
def averaged (corrections : List (Vec3 α)) : Option (Vec3 α) :=
  if corrections.isEmpty then none
  else some (Vec3.sum corrections / (corrections.length : α))

end Response

/-- Puts the items of a list over the beginning of another one, whose length stays. -/
def overwrite {β : Type} : List β → List β → List β
  | x :: xs, _ :: ys => x :: overwrite xs ys
  | _, ys => ys

theorem length_overwrite {β : Type} (xs ys : List β) :
    (overwrite xs ys).length = ys.length := by
  fun_induction overwrite xs ys <;> simp_all

theorem overwrite_of_length_eq {β : Type} {xs ys : List β} (h : xs.length = ys.length) :
    overwrite xs ys = xs := by
  fun_induction overwrite xs ys with
  | case1 x xs y ys ih => simp [ih (by simpa using h)]
  | case2 xs ys hne =>
    match xs, ys with
    | [], [] => rfl
    | [], _ :: _ | _ :: _, [] => simp at h
    | x :: xs, y :: ys => exact absurd rfl (hne x xs y ys rfl)

/-- The elements `0` and `1`, `2` and `3`, and so on, paired. -/
def pairs {β : Type} : List β → List (β × β)
  | a :: b :: rest => (a, b) :: pairs rest
  | _ => []

/-- For each item the corrections that it receives from meeting every other item. The meeting
`push a b` of an item `a` with a later item `b` displaces `b`, and `a` by the opposite. -/
def mutualCorrections {α β : Type} [Scalar α] (push : β → β → Option (Vec3 α)) (items : List β) :
    List (List (Vec3 α)) :=
  items.zipIdx.map fun (x, i) =>
    (items.take i).filterMap (push · x) ++
      (items.drop (i + 1)).filterMap fun y => (push x y).map (-·)

end Relaxation
