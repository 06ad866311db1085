import Mathlib.Algebra.Group.Defs
import Relaxation.Goal.Response

/-!
# Lists

Folds that pick an item, and reading and writing lists and arrays by place, with no value where the
place is not there. A computation written with the latter succeeds exactly when it never leaves a
list, which is how other modules say that an index is in range.
-/

namespace Relaxation

variable {β γ : Type}

/-! ## Picking -/

/-- A fold that goes on with one of two items, always with one that stands in a preorder `r` before
both, ends with an item that stands before all. -/
theorem foldl_pick {r : β → β → Prop} {pick : β → β → β} (hrefl : ∀ x, r x x)
    (htrans : ∀ {x y z}, r x y → r y z → r x z)
    (hpick : ∀ x y, (pick x y = x ∨ pick x y = y) ∧ r (pick x y) x ∧ r (pick x y) y)
    (x : β) (xs : List β) :
    xs.foldl pick x ∈ x :: xs ∧ ∀ y ∈ x :: xs, r (xs.foldl pick x) y := by
  induction xs generalizing x with
  | nil => simpa using hrefl x
  | cons y ys ih =>
    obtain ⟨hmem, hall⟩ := ih (pick x y)
    obtain ⟨hchoice, hx, hy⟩ := hpick x y
    rw [List.forall_mem_cons] at hall
    rw [List.foldl_cons, List.forall_mem_cons, List.forall_mem_cons]
    refine ⟨?_, htrans hall.1 hx, htrans hall.1 hy, hall.2⟩
    rcases List.mem_cons.mp hmem with hmem | hmem
    · rw [hmem]
      rcases hchoice with h | h <;> simp [h]
    · exact List.mem_cons_of_mem x (List.mem_cons_of_mem y hmem)

/-- Where no key is repeated, a key picks out one item. -/
theorem filterMap_key_eq_singleton {κ : Type} [DecidableEq κ] {bs : List (κ × β)} {k : κ} {b : β}
    (hnodup : (bs.map Prod.fst).Nodup) (hmem : (k, b) ∈ bs) (f : β → γ) :
    (bs.filterMap fun a => if a.1 = k then some (f a.2) else none) = [f b] := by
  induction bs with
  | nil => cases hmem
  | cons a bs ih =>
    obtain ⟨hnot, hnodup⟩ := List.nodup_cons.mp hnodup
    rcases List.mem_cons.mp hmem with rfl | hmem
    · have hrest : bs.filterMap (fun a => if a.1 = k then some (f a.2) else none) = [] :=
        List.filterMap_eq_nil_iff.mpr fun a ha =>
          if_neg fun heq => hnot (List.mem_map.mpr ⟨a, ha, heq⟩)
      simp only [List.filterMap_cons, if_true, hrest]
    · have hne : a.1 ≠ k := fun heq => hnot (List.mem_map.mpr ⟨_, hmem, heq.symm⟩)
      simp only [List.filterMap_cons, if_neg hne, ih hnodup hmem]

/-! ## Folds that add up -/

/-- A reading to which each step of a fold adds a term ends as the sum of the terms. -/
theorem apply_foldl_eq_add_sum {M : Type} [AddMonoid M] {f : γ → M} {g : β → M} {step : γ → β → γ}
    (h : ∀ c b, f (step c b) = f c + g b) (c : γ) (bs : List β) :
    f (bs.foldl step c) = f c + (bs.map g).sum := by
  induction bs generalizing c with
  | nil => exact (add_zero _).symm
  | cons b bs ih => rw [List.foldl_cons, ih, h, List.map_cons, List.sum_cons, add_assoc]

/-! ## Folds over indices -/

/-- The first step set apart instead of the last. -/
theorem repeat_succ' (f : β → β) (n : Nat) (b : β) :
    Nat.repeat f (n + 1) b = Nat.repeat f n (f b) := by
  induction n with
  | zero => rfl
  | succ n ih => exact congrArg f ih

/-- What holds at first and after each step holds after all of them. -/
theorem foldl_fin_induction {n : Nat} {motive : Fin (n + 1) → β → Prop} {f : β → Fin n → β} {x : β}
    (zero : motive 0 x) (succ : ∀ i y, motive i.castSucc y → motive i.succ (f y i)) :
    motive (Fin.last n) (Fin.foldl n f x) := by
  induction n with
  | zero => exact zero
  | succ n ih =>
    rw [Fin.foldl_succ_last]
    refine succ (Fin.last n) _ (ih (motive := fun i => motive i.castSucc) zero fun i y hy => ?_)
    rw [← Fin.succ_castSucc]
    exact succ i.castSucc y hy

/-- The same of a fold from the last index to the first. -/
theorem foldr_fin_induction {n : Nat} {motive : Fin (n + 1) → β → Prop} {f : Fin n → β → β} {x : β}
    (last : motive (Fin.last n) x) (pred : ∀ i y, motive i.succ y → motive i.castSucc (f i y)) :
    motive 0 (Fin.foldr n f x) := by
  induction n with
  | zero => exact last
  | succ n ih =>
    rw [Fin.foldr_succ]
    refine pred 0 _ (ih (motive := fun i => motive i.succ) last fun i y hy => ?_)
    rw [Fin.succ_castSucc]
    exact pred i.succ y hy

/-! ## Reading -/

theorem mapM_eq_some_iff {f : β → Option γ} {bs : List β} {cs : List γ} :
    bs.mapM f = some cs ↔ bs.map f = cs.map some := by
  induction bs generalizing cs with
  | nil => cases cs <;> simp
  | cons b bs ih =>
    cases cs with
    | nil => simp [Option.bind_eq_some_iff]
    | cons c cs =>
      rw [List.mapM_cons, List.map_cons, List.map_cons, List.cons_eq_cons, ← ih]
      simp [Option.bind_eq_some_iff]

theorem mapM_eq_some_map {f : β → Option γ} {g : β → γ} {bs : List β}
    (h : ∀ b ∈ bs, f b = some (g b)) : bs.mapM f = some (bs.map g) := by
  rw [mapM_eq_some_iff, List.map_map]
  exact List.map_congr_left h

theorem option_mapM_eq_some_map {f : β → Option γ} {g : β → γ} {o : Option β}
    (h : ∀ b ∈ o, f b = some (g b)) : o.mapM f = some (o.map g) := by
  cases o with
  | none => rfl
  | some b => rw [Option.mapM_some, h b rfl]; rfl

theorem mapM_range_eq_some {n : Nat} {f : Nat → Option γ} {cs : List γ} (hn : cs.length = n)
    (h : ∀ i < n, f i = cs[i]?) : (List.range n).mapM f = some cs := by
  refine mapM_eq_some_iff.mpr (List.ext_getElem (by simp [hn]) fun i hi _ => ?_)
  rw [List.getElem_map, List.getElem_map, List.getElem_range]
  have hi : i < n := by simpa using hi
  rw [h i hi, List.getElem?_eq_getElem (hn ▸ hi)]

theorem length_eq_of_map_eq {δ : Type} {f : β → δ} {f' : γ → δ} {bs : List β} {cs : List γ}
    (h : bs.map f = cs.map f') : bs.length = cs.length := by
  simpa using congrArg List.length h

/-- Lists that map to the same list have items that map to the same item at the same places. -/
theorem exists_getElem?_of_map_eq {δ : Type} {f : β → δ} {f' : γ → δ} {bs : List β} {cs : List γ}
    (h : bs.map f = cs.map f') {k : Nat} {b : β} (hb : bs[k]? = some b) :
    ∃ c, cs[k]? = some c ∧ f b = f' c := by
  have hk : (cs.map f')[k]? = some (f b) := by rw [← h, List.getElem?_map, hb, Option.map_some]
  rw [List.getElem?_map, Option.map_eq_some_iff] at hk
  obtain ⟨c, hc, heq⟩ := hk
  exact ⟨c, hc, heq.symm⟩

/-- The items at `count` places from a start on. -/
def slice? (bs : List β) (start count : Nat) : Option (List β) :=
  (List.range' start count).mapM (bs[·]?)

theorem slice?_eq_some {bs : List β} {start count : Nat} (h : start + count ≤ bs.length) :
    slice? bs start count = some ((bs.drop start).take count) := by
  refine mapM_eq_some_iff.mpr (List.ext_getElem ?_ fun i hi _ => ?_)
  · simp only [List.length_map, List.length_range', List.length_take, List.length_drop]
    omega
  · have hi : i < count := by simpa using hi
    have hlt : start + i < bs.length := by omega
    simp [hlt]

theorem slice?_zero {bs : List β} {count : Nat} (h : count ≤ bs.length) :
    slice? bs 0 count = some (bs.take count) := by
  rw [slice?_eq_some (by omega), List.drop_zero]

theorem slice?_rest {bs : List β} {start : Nat} (h : start ≤ bs.length) :
    slice? bs start (bs.length - start) = some (bs.drop start) := by
  rw [slice?_eq_some (by omega), List.take_of_length_le (by simp)]

/-! ## Writing -/

/-- Puts the items of a list over the beginning of another one, which has a place for each. -/
def overwrite? : List β → List β → Option (List β)
  | [], bs => some bs
  | _ :: _, [] => none
  | a :: as, _ :: bs => (overwrite? as bs).map (a :: ·)

theorem overwrite?_eq_some {as bs : List β} (h : as.length ≤ bs.length) :
    overwrite? as bs = some (overwrite as bs) := by
  induction as generalizing bs with
  | nil => rw [overwrite?, overwrite]; simp
  | cons a as ih =>
    cases bs with
    | nil => simp at h
    | cons b bs => rw [overwrite?, ih (by simpa using h), Option.map_some, overwrite]

/-- Putting an item in the place of one with the same image changes no image. -/
theorem map_setIfInBounds {bs : Array β} {i : Nat} {b b' : β} (h : bs[i]? = some b) {f : β → γ}
    (hf : f b' = f b) : (bs.setIfInBounds i b').map f = bs.map f := by
  apply Array.ext_getElem?
  intro j
  rw [Array.getElem?_map, Array.getElem?_map, Array.getElem?_setIfInBounds]
  split
  next hij =>
    rw [← hij, h, if_pos (Array.getElem?_eq_some_iff.mp h).1, Option.map_some, Option.map_some, hf]
  next => rfl

/-- Changes the item at a place. -/
def modify? (bs : Array β) (i : Nat) (f : β → β) : Option (Array β) :=
  bs[i]?.map fun b => bs.setIfInBounds i (f b)

theorem modify?_eq_some {bs : Array β} {i : Nat} (h : i < bs.size) (f : β → β) :
    modify? bs i f = some (bs.modify i f) := by
  rw [modify?, Array.getElem?_eq_getElem h, Option.map_some]
  simp [Array.modify, Array.modifyM, h, Array.setIfInBounds]

end Relaxation
