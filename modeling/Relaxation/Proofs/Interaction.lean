import Relaxation.Proofs.Scalar.Order
import Relaxation.Proofs.Solver.Replay

/-!
# What queued commands come to

Taking effect one after another, the commands of a queue come to what the last of them say
(`Interaction.settled_drain`): the last move decides where the pointer is, and the last command that
grabs a node, names one or lets go decides which one is held. Only the node that a command grabs depends
on the commands before it, through the pointer.
-/

namespace Relaxation

variable {α : Type} [Scalar α]

/-! ## The first of the nearest nodes -/

/-- No node is nearer to the ray than the one at the place, and those before it are farther off. -/
structure Pool.IsFirstNearest (pool : Pool α) (ray : Ray α) (i : Nat) : Prop where
  lt_size : i < pool.size
  least : ∀ j < pool.size,
    Scalar.totalLt (ray.distSq (pool.position j)) (ray.distSq (pool.position i)) = false
  first : ∀ j < i,
    Scalar.totalLt (ray.distSq (pool.position i)) (ray.distSq (pool.position j)) = true

/-- The place answers which node is nearest to the pointer; no place says that there is no pointer or
no node. -/
def Pool.Nearest (pool : Pool α) (pointer : Option (Ray α)) : Option Nat → Prop
  | some i => ∃ ray, pointer = some ray ∧ pool.IsFirstNearest ray i
  | none => pointer = none ∨ pool.size = 0

namespace Interaction

variable {pool : Pool α}

theorem isFirstNearest_nearestNode [Scalar.Ordered α] (ray : Ray α) (h : pool.size ≠ 0) :
    ∃ i, nearestNode pool ray = some i ∧ pool.IsFirstNearest ray i := by
  obtain ⟨L, _, rank, hrank⟩ := Scalar.Ordered.exists_rank (α := α)
  let distances := pool.toList.zipIdx.map fun x => (x.2, ray.distSq x.1.position)
  have hget : ∀ j < pool.size, distances[j]? = some (j, ray.distSq (pool.position j)) := by
    intro j hj
    simp [distances, Pool.position, hj]
  have hne : distances ≠ [] :=
    List.ne_nil_of_mem (List.mem_of_getElem? (hget 0 (Nat.pos_of_ne_zero h)))
  obtain ⟨i, b, hb, hpick, hfirst, hleast⟩ := Scalar.exists_firstMinBy_eq hrank Prod.snd hne
  have hi : i < pool.size := by
    have hlt := (List.getElem?_eq_some_iff.mp hb).1
    simpa [distances] using hlt
  obtain rfl := Option.some.inj ((hget i hi).symm.trans hb)
  have hnearest : nearestNode pool ray = some i := congrArg (Option.map Prod.fst) hpick
  refine ⟨i, hnearest, hi, fun j hj => ?_, fun j hj => ?_⟩
  · rw [← Bool.not_eq_true, hrank]
    exact (hleast j _ (hget j hj)).not_gt
  · exact (hrank _ _).mpr (hfirst j hj _ (hget j (hj.trans hi)))

theorem nearest_bind_nearestNode [Scalar.Ordered α] (pool : Pool α) (pointer : Option (Ray α)) :
    pool.Nearest pointer (pointer.bind (nearestNode pool)) := by
  cases pointer with
  | none => exact .inl rfl
  | some ray =>
    by_cases h : pool.size = 0
    · obtain rfl := Array.eq_empty_of_size_eq_zero h
      exact .inr rfl
    · obtain ⟨i, hi, hnearest⟩ := isFirstNearest_nearestNode ray h
      rw [Option.bind_some, hi]
      exact ⟨ray, rfl, hnearest⟩

end Interaction

/-! ## Who decides -/

namespace Command

/-- Where a command moves the pointer. -/
def ray? : Command α → Option (Ray α)
  | pointerMoved ray => some ray
  | grab | release | setHandle _ => none

/-- Whether a command decides which node is held. -/
def decides : Command α → Bool
  | grab | release | setHandle _ => true
  | pointerMoved _ => false

/-- What a command leaves held, with the pointer where it is when the command takes effect. -/
def Leaves (pool : Pool α) (pointer : Option (Ray α)) : Command α → Option Nat → Prop
  | grab, handle => pool.Nearest pointer handle
  | release, handle => handle = none
  | setHandle node, handle => handle = node.filter (· < pool.size)
  | pointerMoved _, _ => False

end Command

namespace Interaction

omit [Scalar α] in
/-- Where the pointer is after commands: where the last move took it, or else where it was. -/
def pointerAfter (pointer : Option (Ray α)) (commands : List (Command α)) : Option (Ray α) :=
  (commands.filterMap Command.ray?).getLast?.or pointer

/-- What a queue of commands comes to. A node that no command decides on is held as before, as long as
it is there. -/
structure Settled (pool : Pool α) (x x' : Interaction α) : Prop where
  queue_eq : x'.queue = []
  pointer_eq : x'.pointer = pointerAfter x.pointer x.queue
  handle_of_decides : ∀ before c after, x.queue = before ++ c :: after → c.decides = true →
    (∀ d ∈ after, d.decides = false) → c.Leaves pool (pointerAfter x.pointer before) x'.handle
  handle_of_forall : (∀ d ∈ x.queue, d.decides = false) →
    x'.handle = x.handle.filter (· < pool.size)
  nearest : ∀ ray, x'.pointer = some ray → pool.Nearest (some ray) x'.nearest

variable {pool : Pool α}

omit [Scalar α] in
theorem pointerAfter_cons (pointer : Option (Ray α)) (c : Command α) (cs : List (Command α)) :
    pointerAfter pointer (c :: cs) = pointerAfter (c.ray?.or pointer) cs := by
  unfold pointerAfter
  cases hc : c.ray? with
  | none => rw [List.filterMap_cons_none hc, Option.none_or]
  | some ray =>
    rw [List.filterMap_cons_some hc, List.getLast?_cons]
    cases (cs.filterMap Command.ray?).getLast? <;> rfl

theorem pointer_foldl_obey (x : Interaction α) (cs : List (Command α)) :
    (cs.foldl (obey pool) x).pointer = pointerAfter x.pointer cs := by
  induction cs generalizing x with
  | nil => rfl
  | cons c cs ih =>
    rw [List.foldl_cons, ih, pointerAfter_cons]
    cases c <;> rfl

theorem handle_foldl_obey (x : Interaction α) {cs : List (Command α)}
    (h : ∀ c ∈ cs, c.decides = false) : (cs.foldl (obey pool) x).handle = x.handle := by
  induction cs generalizing x with
  | nil => rfl
  | cons c cs ih =>
    obtain ⟨hc, hcs⟩ := List.forall_mem_cons.mp h
    rw [List.foldl_cons, ih _ hcs]
    cases c with
    | pointerMoved ray => rfl
    | grab | release | setHandle => cases hc

variable [Scalar.Ordered α]

/-- The node that a command leaves held is there, so that looking for it again changes nothing. -/
theorem leaves_obey (pool : Pool α) (x : Interaction α) {c : Command α} (h : c.decides = true) :
    c.Leaves pool x.pointer ((obey pool x c).handle.filter (· < pool.size)) := by
  cases c with
  | pointerMoved ray => cases h
  | release => rfl
  | setHandle node => simp [obey, Command.Leaves, Option.filter_filter]
  | grab =>
    have hholds : (obey pool x .grab).Holds pool.size := by
      intro i hi
      obtain ⟨ray, _, hray⟩ := Option.bind_eq_some_iff.mp hi
      exact nearestNode_lt hray
    rw [hholds.filter_handle]
    exact nearest_bind_nearestNode pool x.pointer

theorem settled_drain (pool : Pool α) (x : Interaction α) : x.Settled pool (x.drain pool) where
  queue_eq := queue_foldl_obey ..
  pointer_eq := pointer_foldl_obey ..
  handle_of_decides := by
    intro before c after hqueue hc hafter
    have hleaves := leaves_obey pool (before.foldl (obey pool) { x with queue := [] }) hc
    rw [pointer_foldl_obey] at hleaves
    simp only [drain, refresh, hqueue, List.foldl_append, List.foldl_cons,
      handle_foldl_obey _ hafter]
    exact hleaves
  handle_of_forall := by
    intro h
    simp only [drain, refresh, handle_foldl_obey _ h]
  nearest := by
    intro ray hray
    have hnearest := nearest_bind_nearestNode pool (some ray)
    simp only [drain, refresh] at hray ⊢
    rw [hray]
    exact hnearest

/-- A node that no command decides on need not be held as before: here the third of three nodes is
named, and is let go when there is but one node left. -/
theorem not_forall_handle_drain :
    ¬∀ (pool : Pool Binary64) (x : Interaction Binary64), (∀ c ∈ x.queue, c.decides = false) →
      (x.drain pool).handle = x.handle := by
  intro hkeeps
  let three : Pool Binary64 := #[Node.atRest 0, Node.atRest Vec3.xAxis, Node.atRest Vec3.zAxis]
  let x := (empty.send (.setHandle (some 2))).drain three
  have hheld : x.handle = some 2 := rfl
  have hgone : (x.drain #[Node.atRest 0]).handle = none := rfl
  have hsame := hkeeps #[Node.atRest 0] x (fun c hc => by cases hc)
  rw [hheld, hgone] at hsame
  cases hsame

end Interaction
end Relaxation
