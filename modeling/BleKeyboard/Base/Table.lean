import Mathlib.Data.Finmap
import Mathlib.Data.Fintype.Card

/-!
# Slot tables as maps

A table of slots, each free or holding a key with a value. As long as no key has two slots,
the table stands for a finite map: to write a slot inserts its key, to free a key's slot
erases the key. It does not matter which free slot a search finds, and there is one as long
as the map has fewer keys than the table has slots.
-/

namespace BleKeyboard.Base

universe u v w

variable {α : Type u} {κ : Type v} {β : Type w} [DecidableEq κ] {n : Nat}

/-- The table `v` stands for the map `m`: no key has two slots, and the keys of the map are
those of the slots, each with its value. -/
structure Represents (key : α → Option κ) (val : α → β) (v : Vector α n)
    (m : Finmap fun _ : κ => β) : Prop where
  distinct : ∀ (i j : Fin n) (k : κ), key v[i] = some k → key v[j] = some k → i = j
  lookup_iff : ∀ (k : κ) (b : β),
    m.lookup k = some b ↔ ∃ i : Fin n, key v[i] = some k ∧ val v[i] = b

/-- The keys of the slots that are not free, each with its value, in the order of the slots. -/
def entries (key : α → Option κ) (val : α → β) (v : Vector α n) : List (κ × β) :=
  v.toList.filterMap fun a => (key a).map (·, val a)

namespace Represents

variable {key : α → Option κ} {val : α → β} {v : Vector α n} {m : Finmap fun _ : κ => β}

/-- A table of free slots stands for the empty map. -/
theorem empty (hfree : ∀ i : Fin n, key v[i] = none) : Represents key val v ∅ where
  distinct := by
    intro i j k hi
    rw [hfree i] at hi
    cases hi
  lookup_iff := by
    intro k b
    rw [Finmap.lookup_empty]
    refine iff_of_false nofun ?_
    rintro ⟨i, hi, -⟩
    rw [hfree i] at hi
    cases hi

theorem mem_iff (h : Represents key val v m) (k : κ) :
    k ∈ m ↔ ∃ i : Fin n, key v[i] = some k := by
  rw [Finmap.mem_iff]
  constructor
  · rintro ⟨b, hb⟩
    obtain ⟨i, hi, -⟩ := (h.lookup_iff k b).mp hb
    exact ⟨i, hi⟩
  · rintro ⟨i, hi⟩
    exact ⟨val v[i], (h.lookup_iff k _).mpr ⟨i, hi, rfl⟩⟩

/-- The map is empty exactly if every slot is free. -/
theorem eq_empty_iff (h : Represents key val v m) : m = ∅ ↔ ∀ i : Fin n, key v[i] = none := by
  constructor
  · rintro rfl i
    by_contra hsome
    obtain ⟨k, hk⟩ := Option.ne_none_iff_exists'.mp hsome
    exact Finmap.notMem_empty ((h.mem_iff k).mpr ⟨i, hk⟩)
  · intro hfree
    refine Finmap.ext_lookup ?_
    intro k
    rw [Finmap.lookup_empty, Finmap.lookup_eq_none, h.mem_iff]
    rintro ⟨i, hi⟩
    rw [hfree i] at hi
    cases hi

/-! ## The entries in a row -/

theorem mem_entries (h : Represents key val v m) {k : κ} {b : β} :
    (k, b) ∈ entries key val v ↔ m.lookup k = some b := by
  rw [h.lookup_iff, entries, List.mem_filterMap]
  constructor
  · rintro ⟨a, ha, heq⟩
    obtain ⟨k', hk', heq⟩ := Option.map_eq_some_iff.mp heq
    obtain ⟨rfl, rfl⟩ := Prod.mk.inj heq
    obtain ⟨i, hi, rfl⟩ := Vector.getElem_of_mem (Vector.mem_toList_iff.mp ha)
    exact ⟨⟨i, hi⟩, hk', rfl⟩
  · rintro ⟨i, hk, rfl⟩
    refine ⟨v[i], Vector.mem_toList_iff.mpr (Vector.getElem_mem i.isLt), ?_⟩
    rw [hk]
    rfl

/-- No key comes twice. -/
theorem nodup_entries (h : Represents key val v m) :
    ((entries key val v).map Prod.fst).Nodup := by
  have hkeys : (entries key val v).map Prod.fst = v.toList.filterMap key := by
    rw [entries, List.map_filterMap]
    congr 1
    funext a
    cases key a <;> rfl
  rw [hkeys, List.Nodup, List.pairwise_filterMap, List.pairwise_iff_getElem]
  intro i j hi hj hij k hk k' hk' heq
  subst heq
  rw [Vector.length_toList] at hi hj
  rw [Vector.getElem_toList] at hk hk'
  have hsame := h.distinct ⟨i, hi⟩ ⟨j, hj⟩ k hk hk'
  exact absurd (congrArg Fin.val hsame) (Nat.ne_of_lt hij)

/-- **Pigeonhole**: with fewer keys than slots, a slot is free. -/
theorem exists_free (h : Represents key val v m) (hcard : m.keys.card < n) :
    ∃ i : Fin n, key v[i] = none := by
  by_contra hfull
  rw [not_exists] at hfull
  -- every slot has a key of its own, so there are as many keys as slots
  have hkey : ∀ i : Fin n, ∃ k : m.keys, key v[i] = some k.val := by
    intro i
    obtain ⟨k, hk⟩ := Option.ne_none_iff_exists'.mp (hfull i)
    exact ⟨⟨k, Finmap.mem_keys.mpr ((h.mem_iff k).mpr ⟨i, hk⟩)⟩, hk⟩
  choose f hf using hkey
  have hinj : Function.Injective f := by
    intro i j hij
    exact h.distinct i j (f i).val (hf i) (hij ▸ hf j)
  have hle := Fintype.card_le_of_injective f hinj
  rw [Fintype.card_fin, Fintype.card_coe] at hle
  exact Nat.not_lt_of_le hle hcard

/-- **Writing a slot** that is free or has the key already, for a key with no other slot. -/
theorem set (h : Represents key val v m) {i : Fin n} {k : κ} {a : α} (ha : key a = some k)
    (hslot : ∀ k', key v[i] = some k' → k' = k) (honly : ∀ j : Fin n, key v[j] = some k → j = i) :
    Represents key val (v.set i a) (m.insert k (val a)) where
  distinct := by
    intro j j' k' hj hj'
    rw [Fin.getElem_fin, Vector.getElem_set] at hj hj'
    split at hj
    · next hij =>
      split at hj'
      · next hij' => exact Fin.ext (hij.symm.trans hij')
      · obtain rfl := Option.some.inj (ha.symm.trans hj)
        exact (Fin.ext hij).symm.trans (honly j' hj').symm
    · split at hj'
      · next hij' =>
        obtain rfl := Option.some.inj (ha.symm.trans hj')
        exact (honly j hj).trans (Fin.ext hij')
      · exact h.distinct j j' k' hj hj'
  lookup_iff := by
    intro k' b
    by_cases hk : k' = k
    · subst hk
      rw [Finmap.lookup_insert, Option.some.injEq]
      constructor
      · rintro rfl
        exact ⟨i, by simpa using ha⟩
      · rintro ⟨j, hj, rfl⟩
        have hij : j = i := by
          by_contra hne
          rw [Fin.getElem_fin, Vector.getElem_set_ne _ _ fun heq => hne (Fin.ext heq.symm)] at hj
          exact hne (honly j hj)
        subst hij
        simp
    · rw [Finmap.lookup_insert_of_ne _ hk, h.lookup_iff]
      -- no other key had the slot, and none has it now
      refine exists_congr fun j => ?_
      by_cases hij : j = i
      · subst hij
        refine iff_of_false (fun hj => hk (hslot k' hj.1)) ?_
        rintro ⟨hj, -⟩
        rw [Fin.getElem_fin, Vector.getElem_set_self, ha, Option.some.injEq] at hj
        exact hk hj.symm
      · rw [Fin.getElem_fin, Fin.getElem_fin,
          Vector.getElem_set_ne _ _ fun heq => hij (Fin.ext heq.symm)]

/-- **Freeing the slots of a key**. -/
theorem free (h : Represents key val v m) {k : κ} {f : α → α}
    (hgone : ∀ a, key a = some k → key (f a) = none) (hkept : ∀ a, key a ≠ some k → f a = a) :
    Represents key val (v.map f) (m.erase k) := by
  -- what is left of a slot is the slot as it was, of another key
  have hslot : ∀ (i : Fin n) (k' : κ), key (v.map f)[i] = some k' →
      k' ≠ k ∧ (v.map f)[i] = v[i] := by
    intro i k' hi
    rw [Fin.getElem_fin, Vector.getElem_map] at hi ⊢
    have hne : key v[i.val] ≠ some k := by
      intro hk
      rw [hgone _ hk] at hi
      cases hi
    rw [hkept _ hne] at hi ⊢
    exact ⟨fun heq => hne (heq ▸ hi), rfl⟩
  refine ⟨?_, ?_⟩
  · intro i j k' hi hj
    rw [(hslot i k' hi).2] at hi
    rw [(hslot j k' hj).2] at hj
    exact h.distinct i j k' hi hj
  · intro k' b
    by_cases hk : k' = k
    · subst hk
      rw [Finmap.lookup_erase]
      refine iff_of_false nofun ?_
      rintro ⟨i, hi, -⟩
      exact (hslot i k' hi).1 rfl
    · rw [Finmap.lookup_erase_ne hk, h.lookup_iff]
      refine exists_congr fun i => ?_
      constructor
      · rintro ⟨hi, hb⟩
        have hsame : (v.map f)[i] = v[i] := by
          rw [Fin.getElem_fin, Vector.getElem_map]
          exact hkept _ fun heq => hk (Option.some.inj (hi.symm.trans heq))
        rw [hsame]
        exact ⟨hi, hb⟩
      · rintro ⟨hi, hb⟩
        have hsame := (hslot i k' hi).2
        rw [hsame] at hi hb
        exact ⟨hi, hb⟩

end Represents

end BleKeyboard.Base
