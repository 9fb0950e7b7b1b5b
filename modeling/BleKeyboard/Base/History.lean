import Mathlib.Data.List.Basic
import Mathlib.Data.List.Induction
import Mathlib.Data.List.Nodup

/-!
# Histories of press and release edges

A bank of two-state switches, indexed by `P`, is observed through a list of
*edges*: which switch, in which direction, and a tag `C` for what the observer
made of it. Nothing forces such a list to come from switches, so the two laws
a faithful observer owes are stated here:

- `Alternates h`: each switch's edges go press, release, press, ..., beginning
  with a press;
- `ReleasesMatch S h`: each release of a switch in `S` carries the tag of the
  press it answers.

`pressed h` and `lastPress h` are the switch states and press tags that the
history amounts to. Every lemma is about appending at the end, because that is
how a history grows.
-/

namespace BleKeyboard.Base

universe u v

/-- One edge of the switch `pos`: a press or a release, tagged `code`. -/
structure Edge (P : Type u) (C : Type v) where
  pos : P
  down : Bool
  code : C
  deriving DecidableEq, Repr

/-- `ds` goes `b, !b, b, ...`. -/
def AlternatesFrom : Bool → List Bool → Prop
  | _, [] => True
  | b, d :: ds => d = b ∧ AlternatesFrom (!b) ds

/-- The direction after `ds`, if the switch started in direction `b`. -/
def lastDir (b : Bool) (ds : List Bool) : Bool := ds.getLast?.getD b

theorem lastDir_append_singleton (b d : Bool) (ds : List Bool) :
    lastDir b (ds ++ [d]) = d := by
  simp [lastDir]

theorem alternatesFrom_append_singleton (b d : Bool) (ds : List Bool) :
    AlternatesFrom b (ds ++ [d]) ↔ AlternatesFrom b ds ∧ d = !lastDir (!b) ds := by
  induction ds generalizing b with
  | nil => simp [AlternatesFrom, lastDir]
  | cons x xs ih =>
    rw [List.cons_append]
    show x = b ∧ AlternatesFrom (!b) (xs ++ [d]) ↔
      (x = b ∧ AlternatesFrom (!b) xs) ∧ d = !lastDir (!b) (x :: xs)
    rw [ih (!b), and_assoc]
    refine and_congr_right fun hx => and_congr_right ?_
    intro _
    -- the tail starts in the direction that its head leaves
    have hlast : lastDir (!b) (x :: xs) = lastDir (!!b) xs := by
      subst hx
      simp [lastDir, List.getLast?_cons]
    rw [hlast]

namespace Edge

variable {P : Type u} {C : Type v} [DecidableEq P]

/-- The directions of the edges of switch `p`, oldest first. -/
def downs (h : List (Edge P C)) (p : P) : List Bool :=
  (h.filter fun e => e.pos = p).map Edge.down

/-- Is switch `p` down, going by its last edge (up if it has none)? -/
def pressed (h : List (Edge P C)) (p : P) : Bool := lastDir false (downs h p)

/-- Every switch goes press, release, press, ..., beginning with a press. -/
def Alternates (h : List (Edge P C)) : Prop := ∀ p, AlternatesFrom true (downs h p)

instance decidableAlternatesFrom : ∀ b ds, Decidable (AlternatesFrom b ds)
  | _, [] => .isTrue trivial
  | b, _ :: ds =>
    have := decidableAlternatesFrom (!b) ds
    inferInstanceAs (Decidable (_ ∧ AlternatesFrom (!b) ds))

/-- Only the switches that have an edge matter. -/
theorem alternates_iff_forall_mem {h : List (Edge P C)} :
    Alternates h ↔ ∀ e ∈ h, AlternatesFrom true (downs h e.pos) := by
  refine ⟨fun hall e _ => hall e.pos, ?_⟩
  intro hall p
  by_cases hp : ∃ e ∈ h, e.pos = p
  · obtain ⟨e, he, rfl⟩ := hp
    exact hall e he
  · have hnone : downs h p = [] := by
      rw [downs, List.map_eq_nil_iff, List.filter_eq_nil_iff]
      intro e he hpos
      exact hp ⟨e, he, of_decide_eq_true hpos⟩
    rw [hnone]
    trivial

instance (h : List (Edge P C)) : Decidable (Alternates h) :=
  decidable_of_iff' _ alternates_iff_forall_mem

/-- The tag of the last press of switch `p`. -/
def lastPress (h : List (Edge P C)) (p : P) : Option C :=
  ((h.filter fun e => e.pos = p ∧ e.down).getLast?).map Edge.code

/-- Each release of a switch in `S` carries the tag of the press before it. -/
def ReleasesMatch (S : P → Prop) (h : List (Edge P C)) : Prop :=
  ∀ pre e post, h = pre ++ e :: post → S e.pos → e.down = false →
    lastPress pre e.pos = some e.code

/-- `ReleasesMatch` by index. -/
theorem releasesMatch_iff {S : P → Prop} {h : List (Edge P C)} :
    ReleasesMatch S h ↔ ∀ i : Fin h.length, S (h.get i).pos → (h.get i).down = false →
      lastPress (h.take i) (h.get i).pos = some (h.get i).code := by
  constructor
  · intro hall i
    refine hall (h.take i) (h.get i) (h.drop (i + 1)) ?_
    rw [List.get_eq_getElem, ← List.drop_eq_getElem_cons, List.take_append_drop]
  · rintro hall pre e post rfl
    have hlt : pre.length < (pre ++ e :: post).length := by simp
    simpa using hall ⟨pre.length, hlt⟩

instance {S : P → Prop} [DecidablePred S] [DecidableEq C] (h : List (Edge P C)) :
    Decidable (ReleasesMatch S h) := decidable_of_iff' _ releasesMatch_iff

@[simp] theorem pressed_nil (p : P) : pressed ([] : List (Edge P C)) p = false := rfl

theorem alternates_nil : Alternates ([] : List (Edge P C)) := fun _ => trivial

theorem releasesMatch_nil (S : P → Prop) : ReleasesMatch S ([] : List (Edge P C)) := by
  intro pre e post h
  simp at h

/-! ## Growing a history by one edge -/

theorem downs_append_singleton (h : List (Edge P C)) (e : Edge P C) (p : P) :
    downs (h ++ [e]) p = if e.pos = p then downs h p ++ [e.down] else downs h p := by
  unfold downs
  rw [List.filter_append, List.map_append]
  by_cases hp : e.pos = p <;> simp [hp]

theorem pressed_append_singleton (h : List (Edge P C)) (e : Edge P C) (p : P) :
    pressed (h ++ [e]) p = if e.pos = p then e.down else pressed h p := by
  unfold pressed
  rw [downs_append_singleton]
  split
  · exact lastDir_append_singleton _ _ _
  · rfl

/-- A history keeps alternating exactly when the new edge toggles its switch. -/
theorem alternates_append_singleton (h : List (Edge P C)) (e : Edge P C) :
    Alternates (h ++ [e]) ↔ Alternates h ∧ e.down = !pressed h e.pos := by
  constructor
  · intro hall
    have hself := hall e.pos
    rw [downs_append_singleton, if_pos rfl, alternatesFrom_append_singleton] at hself
    refine ⟨?_, hself.2⟩
    intro p
    have hp := hall p
    rw [downs_append_singleton] at hp
    split at hp
    · exact ((alternatesFrom_append_singleton _ _ _).mp hp).1
    · exact hp
  · rintro ⟨hall, hdown⟩ p
    rw [downs_append_singleton]
    split
    · next hp =>
      subst hp
      exact (alternatesFrom_append_singleton _ _ _).mpr ⟨hall e.pos, hdown⟩
    · exact hall p

theorem lastPress_append_singleton (h : List (Edge P C)) (e : Edge P C) (p : P) :
    lastPress (h ++ [e]) p
      = if e.pos = p ∧ e.down then some e.code else lastPress h p := by
  unfold lastPress
  rw [List.filter_append]
  by_cases hp : e.pos = p ∧ e.down
  · simp [hp]
  · simp [hp]

theorem releasesMatch_append_singleton (S : P → Prop) (h : List (Edge P C)) (e : Edge P C) :
    ReleasesMatch S (h ++ [e]) ↔
      ReleasesMatch S h ∧ (S e.pos → e.down = false → lastPress h e.pos = some e.code) := by
  constructor
  · intro hall
    refine ⟨?_, hall h e [] rfl⟩
    intro pre x post hx
    exact hall pre x (post ++ [e]) (by rw [hx, List.append_assoc, List.cons_append])
  · rintro ⟨hall, hlast⟩ pre x post hx
    -- either `x` is the new edge, or the new edge ends `post`
    rcases List.eq_nil_or_concat post with rfl | ⟨post', y, rfl⟩
    · obtain ⟨rfl, hxe⟩ := List.append_inj' hx rfl
      obtain rfl : e = x := List.cons.inj hxe |>.1
      exact hlast
    · rw [List.concat_eq_append, ← List.cons_append, ← List.append_assoc] at hx
      exact hall pre x post' (List.append_inj' hx rfl).1

theorem Alternates.of_append {h es : List (Edge P C)} (hall : Alternates (h ++ es)) :
    Alternates h := by
  induction es using List.reverseRecOn with
  | nil => rwa [List.append_nil] at hall
  | append_singleton es e ih =>
    rw [← List.append_assoc, alternates_append_singleton] at hall
    exact ih hall.1

theorem ReleasesMatch.of_append {S : P → Prop} {h es : List (Edge P C)}
    (hall : ReleasesMatch S (h ++ es)) : ReleasesMatch S h := by
  intro pre e post hsplit
  exact hall pre e (post ++ es) (by rw [hsplit, List.append_assoc, List.cons_append])

/-! ## Growing a history by a batch of edges of distinct switches

A poll reports each switch at most once, so within one batch every edge can be
read against the history before the batch. -/

theorem pressed_append_of_not_mem (h es : List (Edge P C)) {p : P}
    (hp : p ∉ es.map Edge.pos) : pressed (h ++ es) p = pressed h p := by
  induction es using List.reverseRecOn with
  | nil => rw [List.append_nil]
  | append_singleton es e ih =>
    rw [List.map_append, List.mem_append, not_or] at hp
    have hne : e.pos ≠ p := fun he => hp.2 (by simp [he])
    rw [← List.append_assoc, pressed_append_singleton, if_neg hne, ih hp.1]

theorem lastPress_append_of_not_mem (h es : List (Edge P C)) {p : P}
    (hp : p ∉ es.map Edge.pos) : lastPress (h ++ es) p = lastPress h p := by
  induction es using List.reverseRecOn with
  | nil => rw [List.append_nil]
  | append_singleton es e ih =>
    rw [List.map_append, List.mem_append, not_or] at hp
    have hne : e.pos ≠ p := fun he => hp.2 (by simp [he])
    rw [← List.append_assoc, lastPress_append_singleton, if_neg (fun h => hne h.1), ih hp.1]

variable {h es : List (Edge P C)}

omit [DecidableEq P] in
/-- Distinct switches: no later edge of the batch repeats the last one's switch. -/
theorem not_mem_of_nodup_append_singleton {e : Edge P C}
    (hnd : ((es ++ [e]).map Edge.pos).Nodup) :
    (es.map Edge.pos).Nodup ∧ e.pos ∉ es.map Edge.pos := by
  rw [List.map_append, List.map_singleton, List.nodup_append] at hnd
  exact ⟨hnd.1, fun hmem => hnd.2.2 _ hmem _ (List.mem_singleton_self _) rfl⟩

theorem pressed_append_of_mem (hnd : (es.map Edge.pos).Nodup) {e : Edge P C} (he : e ∈ es) :
    pressed (h ++ es) e.pos = e.down := by
  induction es using List.reverseRecOn with
  | nil => cases he
  | append_singleton es x ih =>
    obtain ⟨hnd', hx⟩ := not_mem_of_nodup_append_singleton hnd
    rw [← List.append_assoc, pressed_append_singleton]
    rcases List.mem_append.mp he with he | he
    · have hne : x.pos ≠ e.pos := fun heq => hx (heq ▸ List.mem_map_of_mem he)
      rw [if_neg hne, ih hnd' he]
    · obtain rfl := List.mem_singleton.mp he
      rw [if_pos rfl]

theorem lastPress_append_of_mem (hnd : (es.map Edge.pos).Nodup) {e : Edge P C} (he : e ∈ es) :
    lastPress (h ++ es) e.pos = if e.down then some e.code else lastPress h e.pos := by
  induction es using List.reverseRecOn with
  | nil => cases he
  | append_singleton es x ih =>
    obtain ⟨hnd', hx⟩ := not_mem_of_nodup_append_singleton hnd
    rw [← List.append_assoc, lastPress_append_singleton]
    rcases List.mem_append.mp he with he | he
    · have hne : x.pos ≠ e.pos := fun heq => hx (heq ▸ List.mem_map_of_mem he)
      rw [if_neg (fun h => hne h.1), ih hnd' he]
    · obtain rfl := List.mem_singleton.mp he
      rw [lastPress_append_of_not_mem _ _ hx]
      simp

/-- A batch keeps the history alternating exactly when each edge toggles the
state its switch had before the batch. -/
theorem alternates_append (hnd : (es.map Edge.pos).Nodup) :
    Alternates (h ++ es) ↔ Alternates h ∧ ∀ e ∈ es, e.down = !pressed h e.pos := by
  induction es using List.reverseRecOn with
  | nil => simp
  | append_singleton es e ih =>
    obtain ⟨hnd', he⟩ := not_mem_of_nodup_append_singleton hnd
    rw [← List.append_assoc, alternates_append_singleton, ih hnd',
      pressed_append_of_not_mem _ _ he, and_assoc]
    simp [or_imp, forall_and]

/-- A batch keeps releases matched exactly when each release carries the tag of
its switch's last press before the batch. -/
theorem releasesMatch_append (S : P → Prop) (hnd : (es.map Edge.pos).Nodup) :
    ReleasesMatch S (h ++ es) ↔ ReleasesMatch S h ∧
      ∀ e ∈ es, S e.pos → e.down = false → lastPress h e.pos = some e.code := by
  induction es using List.reverseRecOn with
  | nil => simp
  | append_singleton es e ih =>
    obtain ⟨hnd', he⟩ := not_mem_of_nodup_append_singleton hnd
    rw [← List.append_assoc, releasesMatch_append_singleton, ih hnd',
      lastPress_append_of_not_mem _ _ he, and_assoc]
    simp [or_imp, forall_and]

end Edge

end BleKeyboard.Base
