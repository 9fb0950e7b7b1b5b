import Mathlib.Data.Multiset.AddSub
import Mathlib.Data.Multiset.Filter

/-!
# Slot tables as bags

A slot table is a vector in which one value `z` marks an empty slot. Where an
entry sits means nothing; the table stands for the *bag* of its non-empty
entries. Writing into an empty slot adds to the bag, emptying a slot removes
from it, and there is an empty slot exactly when the bag is smaller than the
table. All of it holds for any slot with the right content, so it does not
matter which one a search finds.
-/

namespace BleKeyboard.Base

universe u

variable {α : Type u} [DecidableEq α] {n : Nat}

/-- The bag of non-empty entries of a slot table whose empty mark is `z`. -/
def bag (z : α) (v : Vector α n) : Multiset α := (v.toList : Multiset α).filter (· ≠ z)

theorem mem_bag {z a : α} {v : Vector α n} : a ∈ bag z v ↔ a ∈ v.toList ∧ a ≠ z := by
  simp [bag]

omit [DecidableEq α] in
/-- The table's entries, with slot `i` singled out. -/
theorem coe_toList_eq_cons (v : Vector α n) {i : Nat} (hi : i < n) :
    (v.toList : Multiset α) = v[i] ::ₘ (v.toList.eraseIdx i : Multiset α) := by
  have hlen : i < v.toList.length := by simpa using hi
  have hperm := List.getElem_cons_eraseIdx_perm hlen
  rw [Vector.getElem_toList] at hperm
  rw [Multiset.cons_coe, Multiset.coe_eq_coe]
  exact hperm.symm

omit [DecidableEq α] in
/-- The table's entries after a write to slot `i`. -/
theorem coe_toList_set (v : Vector α n) {i : Nat} (hi : i < n) (b : α) :
    ((v.set i b).toList : Multiset α) = b ::ₘ (v.toList.eraseIdx i : Multiset α) := by
  have hlen : i < v.toList.length := by simpa using hi
  rw [Vector.toList_set, Multiset.cons_coe, Multiset.coe_eq_coe]
  exact List.set_perm_cons_eraseIdx hlen b

/-- Filling an empty slot adds the entry to the bag. -/
theorem bag_set_of_empty {z b : α} {v : Vector α n} {i : Nat} (hi : i < n)
    (hz : v[i] = z) (hb : b ≠ z) : bag z (v.set i b) = b ::ₘ bag z v := by
  unfold bag
  rw [coe_toList_set v hi, coe_toList_eq_cons v hi, hz,
    Multiset.filter_cons_of_pos (p := (· ≠ z)) _ hb,
    Multiset.filter_cons_of_neg (p := (· ≠ z)) _ (not_not.mpr rfl)]

/-- Emptying a slot removes its entry from the bag. -/
theorem bag_set_empty {z a : α} {v : Vector α n} {i : Nat} (hi : i < n)
    (ha : v[i] = a) (haz : a ≠ z) : bag z (v.set i z) = (bag z v).erase a := by
  unfold bag
  rw [coe_toList_set v hi, coe_toList_eq_cons v hi, ha,
    Multiset.filter_cons_of_pos (p := (· ≠ z)) _ haz,
    Multiset.filter_cons_of_neg (p := (· ≠ z)) _ (not_not.mpr rfl),
    Multiset.erase_cons_head]

omit [DecidableEq α] in
/-- Writing a slot's own content back changes nothing. -/
theorem set_eq_self {a : α} {v : Vector α n} {i : Nat} (hi : i < n) (ha : v[i] = a) :
    v.set i a = v := by
  subst ha
  exact Vector.set_getElem_self hi

/-- There is an empty slot exactly when the bag is smaller than the table. -/
theorem empty_mem_iff_card_bag_lt {z : α} {v : Vector α n} :
    z ∈ v.toList ↔ (bag z v).card < n := by
  have hcard : (v.toList : Multiset α).card = n := by simp
  have hle : bag z v ≤ (v.toList : Multiset α) := Multiset.filter_le _ _
  constructor
  · intro hz
    refine (Multiset.card_lt_card (lt_of_le_of_ne hle fun heq => ?_)).trans_eq hcard
    have hmem : z ∈ bag z v := by
      rw [heq]
      exact hz
    exact (mem_bag.mp hmem).2 rfl
  · intro hlt
    by_contra hz
    -- without an empty slot the filter keeps everything
    have heq : bag z v = (v.toList : Multiset α) := by
      refine Multiset.filter_eq_self.mpr fun a ha haz => hz ?_
      exact haz ▸ Multiset.mem_coe.mp ha
    rw [heq, hcard] at hlt
    exact Nat.lt_irrefl _ hlt

/-- A table stands for the empty bag exactly when all its slots are empty. -/
theorem bag_eq_zero_iff {z : α} {v : Vector α n} :
    bag z v = 0 ↔ ∀ i (hi : i < n), v[i] = z := by
  unfold bag
  rw [Multiset.filter_eq_nil]
  constructor
  · intro h i hi
    exact not_not.mp (h v[i] (by simp))
  · intro h a ha
    rw [Multiset.mem_coe, Vector.mem_toList_iff] at ha
    obtain ⟨i, hi, rfl⟩ := Vector.getElem_of_mem ha
    exact not_not.mpr (h i hi)

end BleKeyboard.Base
