import Mathlib.Data.List.Count
import Mathlib.Data.List.Nodup

/-!
# Snapshots and changes

A set of which one element at a time comes or goes can be told of by its changes, or by a
snapshot after each change. A listener who is sent the snapshots gets the changes back by
comparing each with the one before: `changesAlong_append` takes a longer stream apart,
`changesAlong_same` says that repeated snapshots do no harm, and `changes_eq_singleton` that one
change is seen as one.
-/

namespace BleKeyboard.Base

universe u

variable {α : Type u}

/-- The elements in which two sets differ, with what the new one says of them. -/
def changes (xs : List α) (old new : α → Bool) : List (α × Bool) :=
  (xs.filter fun a => old a != new a).map fun a => (a, new a)

/-- The changes from each snapshot to the next. -/
def changesAlong (xs : List α) : (α → Bool) → List (α → Bool) → List (α × Bool)
  | _, [] => []
  | old, new :: snapshots => changes xs old new ++ changesAlong xs new snapshots

variable {xs : List α} {old new : α → Bool}

@[simp] theorem changes_self (xs : List α) (old : α → Bool) : changes xs old old = [] := by
  rw [changes, List.map_eq_nil_iff, List.filter_eq_nil_iff]
  intro a _
  rw [bne_self_eq_false]
  exact Bool.false_ne_true

/-- **One change** is seen as one. -/
theorem changes_eq_singleton [DecidableEq α] (hnodup : xs.Nodup) {a : α} {b : Bool} (ha : a ∈ xs)
    (hold : old a = !b) (hnew : new = Function.update old a b) : changes xs old new = [(a, b)] := by
  subst hnew
  have hdiffer : xs.filter (fun x => old x != Function.update old a b x) = xs.filter (· == a) := by
    refine List.filter_congr ?_
    intro x _
    by_cases hx : x = a
    · rw [hx, hold, Function.update_self, beq_self_eq_true]
      cases b <;> rfl
    · rw [Function.update_of_ne hx, bne_self_eq_false, beq_eq_false_iff_ne.mpr hx]
  rw [changes, hdiffer, List.filter_beq, List.count_eq_one_of_mem hnodup ha, List.replicate_one,
    List.map_singleton, Function.update_self]

/-- Snapshots that go on from the last one. -/
theorem changesAlong_append (xs : List α) (old : α → Bool) (ss ts : List (α → Bool)) :
    changesAlong xs old (ss ++ ts)
      = changesAlong xs old ss ++ changesAlong xs (ss.getLast?.getD old) ts := by
  induction ss generalizing old with
  | nil => rfl
  | cons s ss ih =>
    rw [List.cons_append, changesAlong, ih, changesAlong, List.append_assoc, List.getLast?_cons,
      Option.getD_some]

/-- A snapshot that is repeated tells nothing new. -/
theorem changesAlong_same {ss : List (α → Bool)} (hsame : ∀ s ∈ ss, s = new) (hne : ss ≠ []) :
    changesAlong xs old ss = changes xs old new := by
  induction ss generalizing old with
  | nil => exact absurd rfl hne
  | cons s ss ih =>
    obtain rfl := hsame s List.mem_cons_self
    rw [changesAlong]
    cases ss with
    | nil => exact List.append_nil _
    | cons t ss =>
      rw [ih (fun r hr => hsame r (List.mem_cons_of_mem _ hr)) (List.cons_ne_nil _ _), changes_self,
        List.append_nil]

end BleKeyboard.Base
