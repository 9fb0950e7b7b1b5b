import BleKeyboard.Base.Machine

/-!
# Orders of events that make no difference

An event may act on one part of the state only (`Machine.ActsOn`); events that act on disjoint
parts commute. Observers each see some of the events. If events that no observer sees both of
commute, then lists of events that no observer can tell apart have the same run
(`Machine.runFrom_eq_of_views`).
-/

namespace BleKeyboard.Base

universe u v w x

/-- A part of a state that can be read and written. -/
structure Part (σ : Type u) (α : Type v) where
  get : σ → α
  set : α → σ → σ

/-- What is written to one part does not show in the other. -/
structure Part.Disjoint {σ : Type u} {α : Type v} {β : Type w} (p : Part σ α) (q : Part σ β) :
    Prop where
  get_left : ∀ s b, p.get (q.set b s) = p.get s
  get_right : ∀ s a, q.get (p.set a s) = q.get s
  set_comm : ∀ s a b, p.set a (q.set b s) = q.set b (p.set a s)

namespace Machine

variable {σ : Type u} {ε : Type v} {M : Machine σ ε} {α : Type w} {β : Type x} {d e : ε}

/-! ## Events on disjoint parts -/

/-- The event reads one part of the state, and writes no other. -/
def ActsOn (M : Machine σ ε) (p : Part σ α) (e : ε) : Prop :=
  ∃ f : α → Option α, ∀ s, M.step s e = (f (p.get s)).map fun a => p.set a s

/-- Wherever one event follows the other, they could come the other way round. -/
def Commutes (M : Machine σ ε) (d e : ε) : Prop :=
  ∀ s, (M.step s d).bind (M.step · e) = (M.step s e).bind (M.step · d)

theorem Commutes.symm (h : M.Commutes d e) : M.Commutes e d := fun s => (h s).symm

theorem ActsOn.commutes {p : Part σ α} {q : Part σ β} (hd : M.ActsOn p d) (he : M.ActsOn q e)
    (hpq : p.Disjoint q) : M.Commutes d e := by
  obtain ⟨f, hf⟩ := hd
  obtain ⟨g, hg⟩ := he
  intro s
  rw [hf, hg]
  cases ha : f (p.get s) with
  | none =>
    cases g (q.get s) with
    | none => rfl
    | some b =>
      rw [Option.map_some, Option.bind_some, hf, hpq.get_left, ha]
      rfl
  | some a =>
    rw [Option.map_some, Option.bind_some, hg, hpq.get_right]
    cases g (q.get s) with
    | none => rfl
    | some b =>
      rw [Option.map_some, Option.map_some, Option.bind_some, hf, hpq.get_left, ha,
        Option.map_some, hpq.set_comm]

/-! ## Observers -/

/-- An event that commutes with some others could come before them. -/
theorem runFrom_move_front {ds : List ε} (h : ∀ d ∈ ds, M.Commutes d e) (s : σ) (es : List ε) :
    M.runFrom s (ds ++ e :: es) = M.runFrom s (e :: (ds ++ es)) := by
  induction ds generalizing s with
  | nil => rfl
  | cons d ds ih =>
    have hd := h d List.mem_cons_self s
    have ih := fun t => ih (fun d' hd' => h d' (List.mem_cons_of_mem _ hd')) t
    calc M.runFrom s (d :: (ds ++ e :: es))
        = (M.step s d).bind fun t => M.runFrom t (e :: (ds ++ es)) := by
          rw [runFrom_cons]
          exact congrArg _ (funext ih)
      _ = ((M.step s d).bind (M.step · e)).bind (M.runFrom · (ds ++ es)) := by
          rw [Option.bind_assoc]
          rfl
      _ = ((M.step s e).bind (M.step · d)).bind (M.runFrom · (ds ++ es)) := by rw [hd]
      _ = M.runFrom s (e :: d :: (ds ++ es)) := by
          rw [Option.bind_assoc]
          rfl

/-- **What no observer can tell apart runs alike**: given that every event is seen by some
observer, and that events that no observer sees both of commute. -/
theorem runFrom_eq_of_views {ι : Type w} {sees : ι → ε → Bool} (hseen : ∀ e, ∃ i, sees i e = true)
    (hcomm : ∀ d e, (∀ i, sees i e = true → sees i d = false) → M.Commutes d e)
    {es es' : List ε} (hviews : ∀ i, es.filter (sees i) = es'.filter (sees i)) (s : σ) :
    M.runFrom s es = M.runFrom s es' := by
  -- the first event of the one list is moved to the front of the other
  induction es generalizing es' s with
  | nil =>
    have hnil : es' = [] := by
      refine List.eq_nil_iff_forall_not_mem.mpr fun e he => ?_
      obtain ⟨i, hi⟩ := hseen e
      have hmem := List.mem_filter.mpr ⟨he, hi⟩
      rw [← hviews i] at hmem
      cases hmem
    rw [hnil]
  | cons e es ih =>
    obtain ⟨i, hi⟩ := hseen e
    have hfirst := hviews i
    rw [List.filter_cons_of_pos hi] at hfirst
    obtain ⟨ds, rest, rfl, hds, -, -⟩ := List.filter_eq_cons_iff.mp hfirst.symm
    -- who sees this event sees none of those before it
    have hunseen : ∀ j, sees j e = true → ds.filter (sees j) = [] := by
      intro j hj
      have hview := hviews j
      rw [List.filter_cons_of_pos hj, List.filter_append, List.filter_cons_of_pos hj] at hview
      cases hfilter : ds.filter (sees j) with
      | nil => rfl
      | cons d ds' =>
        rw [hfilter, List.cons_append] at hview
        obtain rfl := (List.cons.inj hview).1
        have hmem : e ∈ ds.filter (sees j) := by
          rw [hfilter]
          exact List.mem_cons_self
        exact absurd hi (hds e (List.mem_filter.mp hmem).1)
    have htail : ∀ j, es.filter (sees j) = (ds ++ rest).filter (sees j) := by
      intro j
      have hview := hviews j
      rw [List.filter_append] at hview ⊢
      by_cases hj : sees j e = true
      · rw [List.filter_cons_of_pos hj, List.filter_cons_of_pos hj, hunseen j hj] at hview
        rw [hunseen j hj]
        exact (List.cons.inj hview).2
      · rwa [List.filter_cons_of_neg hj, List.filter_cons_of_neg hj] at hview
    have hmoves : ∀ d ∈ ds, M.Commutes d e := by
      intro d hd
      refine hcomm d e fun j hj => eq_false_of_ne_true fun hsees => ?_
      have hmem := List.mem_filter.mpr ⟨hd, hsees⟩
      rw [hunseen j hj] at hmem
      cases hmem
    rw [runFrom_move_front hmoves, runFrom_cons, runFrom_cons]
    exact congrArg _ (funext fun t => ih htail t)

end Machine

end BleKeyboard.Base
