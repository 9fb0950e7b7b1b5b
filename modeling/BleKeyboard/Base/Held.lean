import BleKeyboard.Base.History
import Mathlib.Data.Finset.Basic
import Mathlib.Data.Multiset.MapFold

/-!
# What a bank of switches holds down

For a history of edges and a finite set `S` of switches, `held S h` is the set of
switches of `S` that are down and `heldTags S h` the bag of the tags they were
pressed with. A press of a switch that is up puts its tag into the bag; a
release that carries the tag of its press takes that tag out
(`heldTags_press`, `heldTags_release`).
-/

namespace BleKeyboard.Base.Edge

universe u v

variable {P : Type u} {C : Type v} [DecidableEq P] (S : Finset P)

/-- The switches of `S` that are down. -/
def held (h : List (Edge P C)) : Finset P := S.filter fun p => pressed h p = true

/-- The tags of the presses that hold the switches of `S` down. -/
def heldTags (h : List (Edge P C)) : Multiset (Option C) := (held S h).val.map (lastPress h)

variable {S} {h : List (Edge P C)} {e : Edge P C}

theorem mem_held {p : P} : p ∈ held S h ↔ p ∈ S ∧ pressed h p = true := by
  rw [held, Finset.mem_filter]

@[simp] theorem held_nil : held S ([] : List (Edge P C)) = ∅ := by
  simp [held]

/-- An edge moves only its own switch. -/
theorem pressed_append_update (h : List (Edge P C)) (e : Edge P C) :
    pressed (h ++ [e]) = Function.update (pressed h) e.pos e.down := by
  funext p
  rw [pressed_append_singleton, Function.update_apply]
  simp only [eq_comm]

theorem held_press (hS : e.pos ∈ S) (hdown : e.down = true) :
    held S (h ++ [e]) = insert e.pos (held S h) := by
  ext p
  rw [Finset.mem_insert, mem_held, mem_held, pressed_append_singleton]
  by_cases hp : e.pos = p
  · subst hp
    simp [hS, hdown]
  · simp [hp, Ne.symm hp]

theorem held_release (hdown : e.down = false) :
    held S (h ++ [e]) = (held S h).erase e.pos := by
  ext p
  rw [Finset.mem_erase, mem_held, mem_held, pressed_append_singleton]
  by_cases hp : e.pos = p
  · subst hp
    simp [hdown]
  · simp [hp, Ne.symm hp]

theorem held_of_not_mem (hS : e.pos ∉ S) : held S (h ++ [e]) = held S h := by
  ext p
  rw [mem_held, mem_held, pressed_append_singleton]
  refine and_congr_right ?_
  intro hp
  have hne : e.pos ≠ p := fun heq => hS (heq ▸ hp)
  rw [if_neg hne]

/-- The tags of the other switches stay as they were. -/
theorem map_lastPress_append {T : Finset P} (hT : e.pos ∉ T) :
    T.val.map (lastPress (h ++ [e])) = T.val.map (lastPress h) := by
  refine Multiset.map_congr rfl ?_
  intro p hp
  rw [lastPress_append_singleton]
  exact if_neg fun heq : e.pos = p ∧ e.down = true => hT (heq.1 ▸ hp)

/-- A press of a switch that is up adds its tag. -/
theorem heldTags_press (hS : e.pos ∈ S) (hup : pressed h e.pos = false) (hdown : e.down = true) :
    heldTags S (h ++ [e]) = some e.code ::ₘ heldTags S h := by
  have hnot : e.pos ∉ held S h := by
    rw [mem_held, hup]
    simp
  unfold heldTags
  rw [held_press hS hdown, Finset.insert_val_of_notMem hnot, Multiset.map_cons,
    map_lastPress_append hnot, lastPress_append_singleton, if_pos ⟨rfl, hdown⟩]

/-- A release that carries the tag of its press removes that tag. -/
theorem heldTags_release (hS : e.pos ∈ S) (hheld : pressed h e.pos = true)
    (hdown : e.down = false) (hcode : lastPress h e.pos = some e.code) :
    heldTags S h = some e.code ::ₘ heldTags S (h ++ [e]) := by
  have hmem : e.pos ∈ held S h := mem_held.mpr ⟨hS, hheld⟩
  have hnot : e.pos ∉ (held S h).erase e.pos := Finset.notMem_erase _ _
  unfold heldTags
  rw [held_release hdown, map_lastPress_append hnot, ← hcode, ← Multiset.map_cons,
    ← Finset.insert_val_of_notMem hnot, Finset.insert_erase hmem]

theorem heldTags_of_not_mem (hS : e.pos ∉ S) : heldTags S (h ++ [e]) = heldTags S h := by
  unfold heldTags
  rw [held_of_not_mem hS, map_lastPress_append fun hmem => hS (mem_held.mp hmem).1]

end BleKeyboard.Base.Edge
