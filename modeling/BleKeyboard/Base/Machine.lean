import Mathlib.Data.List.Basic

/-!
# Deterministic event machines and their runs

A program that reacts to events is a partial step function: `step s e = none`
says that `e` cannot happen in `s`, or that the program gives it no meaning.
This file fixes the vocabulary in which run properties are stated and the
rules that reduce them to one step:

- `Machine.AlongFrom Q`: the step property `Q` holds of every step of a run;
- `Machine.AlwaysFrom P`: the state property `P` holds in every state a run
  visits, the first one included;
- `Machine.UntilFrom C Q`: `Q` holds of every step before the first event that meets `C`;
- `AlongFrom.of_inv`: an inductive invariant carries a step property along a
  run whose steps all meet a condition;
- `Machine.recording`: the machine with a record of its run on the side, in which
  statements about the past of a run can be made;
- `runFrom_map`: a projection that commutes with steps commutes with runs;
- `runFrom_emitted`: a machine that can follow every step of another, in any number of
  its own, can follow its runs;
- `Machine.under`: the machine in an environment that rules some events out;
- `alwaysFrom_iff`, `always_iff`, `recording_always_iff`: when a condition on a step is
  *exactly* what keeps `P`, the runs on which `P` never fails are exactly the runs
  whose steps all meet the condition;
- `alwaysFrom_iff_last`: what is never regained is judged at the end of a run.
-/

namespace BleKeyboard.Base

universe u v w x

/-- A deterministic partial machine over states `σ` and events `ε`. -/
structure Machine (σ : Type u) (ε : Type v) where
  init : σ
  step : σ → ε → Option σ

namespace Machine

variable {σ : Type u} {ε : Type v} (M : Machine σ ε)

/-- The state after the events `es` from `s`, if all of them can happen. -/
def runFrom : σ → List ε → Option σ
  | s, [] => some s
  | s, e :: es => (M.step s e).bind fun t => runFrom t es

/-- The state a run from the initial state ends in. -/
def run (es : List ε) : Option σ := M.runFrom M.init es

/-- `Q` holds of every step (state before, event, state after) of a run. -/
def AlongFrom (Q : σ → ε → σ → Prop) : σ → List ε → Prop
  | _, [] => True
  | s, e :: es =>
    match M.step s e with
    | none => True
    | some t => Q s e t ∧ AlongFrom Q t es

/-- `Q` holds of every step of a run from the initial state. -/
def Along (Q : σ → ε → σ → Prop) (es : List ε) : Prop := M.AlongFrom Q M.init es

/-- `Q` holds of every step of a run before the first event that meets `C`. -/
def UntilFrom (C : σ → ε → Prop) (Q : σ → ε → σ → Prop) : σ → List ε → Prop
  | _, [] => True
  | s, e :: es =>
    C s e ∨
      match M.step s e with
      | none => True
      | some t => Q s e t ∧ UntilFrom C Q t es

/-- `P` holds in every state a run visits. -/
def AlwaysFrom (P : σ → Prop) (s : σ) (es : List ε) : Prop :=
  P s ∧ M.AlongFrom (fun _ _ t => P t) s es

/-- `P` holds in every state a run from the initial state visits. -/
def Always (P : σ → Prop) (es : List ε) : Prop := M.AlwaysFrom P M.init es

instance decidableAlongFrom (Q : σ → ε → σ → Prop) [∀ s e t, Decidable (Q s e t)] :
    ∀ (s : σ) (es : List ε), Decidable (M.AlongFrom Q s es)
  | _, [] => .isTrue trivial
  | s, e :: es =>
    match h : M.step s e with
    | none => .isTrue (by simp [AlongFrom, h])
    | some t =>
      have := decidableAlongFrom Q t es
      decidable_of_iff (Q s e t ∧ M.AlongFrom Q t es) (by simp [AlongFrom, h])

instance (Q : σ → ε → σ → Prop) [∀ s e t, Decidable (Q s e t)] (es : List ε) :
    Decidable (M.Along Q es) :=
  inferInstanceAs (Decidable (M.AlongFrom Q M.init es))

instance (P : σ → Prop) [DecidablePred P] (es : List ε) : Decidable (M.Always P es) :=
  inferInstanceAs (Decidable (P M.init ∧ M.AlongFrom (fun _ _ t => P t) M.init es))

/-- `M` with a record on the side: `upd` folds every step into it, and no step
looks at it. -/
def recording {γ : Type w} (g : γ) (upd : γ → σ → ε → γ) : Machine (σ × γ) ε where
  init := (M.init, g)
  step st e := (M.step st.1 e).map fun t => (t, upd st.2 st.1 e)

/-- `M` in an environment in which `e` can happen in `s` only if `E s e`. -/
def under (E : σ → ε → Prop) [∀ s e, Decidable (E s e)] : Machine σ ε where
  init := M.init
  step s e := if E s e then M.step s e else none

/-- What the steps of a run emit, in order. -/
def emitted {ε' : Type w} (g : σ → ε → List ε') : σ → List ε → List ε'
  | _, [] => []
  | s, e :: es =>
    g s e ++
      match M.step s e with
      | some t => emitted g t es
      | none => []

variable {M} {Q Q' C : σ → ε → σ → Prop} {P : σ → Prop}

@[simp] theorem runFrom_nil (s : σ) : M.runFrom s [] = some s := rfl

@[simp] theorem runFrom_cons (s : σ) (e : ε) (es : List ε) :
    M.runFrom s (e :: es) = (M.step s e).bind fun t => M.runFrom t es := rfl

/-- A run in two parts. -/
theorem runFrom_append (s : σ) (es es' : List ε) :
    M.runFrom s (es ++ es') = (M.runFrom s es).bind fun t => M.runFrom t es' := by
  induction es generalizing s with
  | nil => rfl
  | cons e es ih =>
    rw [List.cons_append, runFrom_cons, runFrom_cons, Option.bind_assoc]
    congr 1
    funext t
    exact ih t

theorem alongFrom_cons {s : σ} {e : ε} {es : List ε} :
    M.AlongFrom Q s (e :: es) ↔ ∀ t, M.step s e = some t → Q s e t ∧ M.AlongFrom Q t es := by
  rw [AlongFrom]
  cases h : M.step s e <;> simp

theorem AlongFrom.mono {s : σ} {es : List ε} (h : M.AlongFrom Q s es)
    (hQ : ∀ s e t, M.step s e = some t → Q s e t → Q' s e t) : M.AlongFrom Q' s es := by
  induction es generalizing s with
  | nil => trivial
  | cons e es ih =>
    rw [alongFrom_cons] at h ⊢
    intro t ht
    exact ⟨hQ s e t ht (h t ht).1, ih (h t ht).2⟩

theorem AlongFrom.and {s : σ} {es : List ε} (h : M.AlongFrom Q s es)
    (h' : M.AlongFrom Q' s es) : M.AlongFrom (fun s e t => Q s e t ∧ Q' s e t) s es := by
  induction es generalizing s with
  | nil => trivial
  | cons e es ih =>
    rw [alongFrom_cons] at h h' ⊢
    intro t ht
    exact ⟨⟨(h t ht).1, (h' t ht).1⟩, ih (h t ht).2 (h' t ht).2⟩

/-- What holds of every event holds of every step. -/
theorem alongFrom_of_forall {E : ε → Prop} (s : σ) {es : List ε} (h : ∀ e ∈ es, E e) :
    M.AlongFrom (fun _ e _ => E e) s es := by
  induction es generalizing s with
  | nil => trivial
  | cons e es ih =>
    rw [alongFrom_cons]
    intro t _
    exact ⟨h e List.mem_cons_self, ih t fun x hx => h x (List.mem_cons_of_mem _ hx)⟩

/-- What holds of every step holds along every run. -/
theorem alongFrom_of_step (s : σ) (es : List ε) (h : ∀ s e t, M.step s e = some t → Q s e t) :
    M.AlongFrom Q s es := by
  induction es generalizing s with
  | nil => trivial
  | cons e es ih =>
    rw [alongFrom_cons]
    exact fun t ht => ⟨h s e t ht, ih t⟩

/-- **Invariant rule**: an invariant that a step keeps under condition `C`, and
that yields `Q` of the step, carries `Q` along every run whose steps meet `C`. -/
theorem AlongFrom.of_inv {I : σ → Prop} {s : σ} {es : List ε} (hs : I s)
    (hC : M.AlongFrom C s es)
    (hstep : ∀ s e t, I s → C s e t → M.step s e = some t → I t ∧ Q s e t) :
    M.AlongFrom Q s es := by
  induction es generalizing s with
  | nil => trivial
  | cons e es ih =>
    rw [alongFrom_cons] at hC ⊢
    intro t ht
    obtain ⟨hc, hrest⟩ := hC t ht
    obtain ⟨hI, hQ⟩ := hstep s e t hs hc ht
    exact ⟨hQ, ih hI hrest⟩

/-- The invariant itself holds in every state of such a run. -/
theorem AlwaysFrom.of_inv {I : σ → Prop} {s : σ} {es : List ε} (hs : I s)
    (hC : M.AlongFrom C s es)
    (hstep : ∀ s e t, I s → C s e t → M.step s e = some t → I t) :
    M.AlwaysFrom I s es :=
  ⟨hs, AlongFrom.of_inv hs hC fun s e t hI hc ht =>
    have hIt := hstep s e t hI hc ht
    ⟨hIt, hIt⟩⟩

/-- An invariant that every step keeps holds in every state of every run. -/
theorem alwaysFrom_of_step {I : σ → Prop} {s : σ} (es : List ε) (hs : I s)
    (hstep : ∀ s e t, I s → M.step s e = some t → I t) : M.AlwaysFrom I s es :=
  AlwaysFrom.of_inv (C := fun _ _ _ => True) hs (alongFrom_of_step s es fun _ _ _ _ => trivial)
    fun s e t hI _ ht => hstep s e t hI ht

/-- A step property that every step has as long as an invariant holds. -/
theorem alongFrom_of_inv {I : σ → Prop} {s : σ} (es : List ε) (hs : I s)
    (hstep : ∀ s e t, I s → M.step s e = some t → I t ∧ Q s e t) : M.AlongFrom Q s es :=
  AlongFrom.of_inv (C := fun _ _ _ => True) hs (alongFrom_of_step s es fun _ _ _ _ => trivial)
    fun s e t hI _ ht => hstep s e t hI ht

/-- **Until rule**: an invariant that every step keeps before `C`, and that yields `Q` of the
step, carries `Q` along every run until `C`. -/
theorem untilFrom_of_inv {C : σ → ε → Prop} {I : σ → Prop} {s : σ} (es : List ε) (hs : I s)
    (hstep : ∀ s e t, I s → ¬C s e → M.step s e = some t → I t ∧ Q s e t) :
    M.UntilFrom C Q s es := by
  induction es generalizing s with
  | nil => trivial
  | cons e es ih =>
    rw [UntilFrom, or_iff_not_imp_left]
    intro hC
    cases ht : M.step s e with
    | none => trivial
    | some t =>
      obtain ⟨hI, hQ⟩ := hstep s e t hs hC ht
      exact ⟨hQ, ih hI⟩

/-- **Exactness rule** for step properties: under an invariant of every step, two step
properties that come to the same hold along the same runs. -/
theorem alongFrom_congr {J : σ → Prop} {s : σ} {es : List ε} (hJs : J s)
    (hJ : ∀ s e t, J s → M.step s e = some t → J t)
    (hiff : ∀ s e t, J s → M.step s e = some t → (Q s e t ↔ Q' s e t)) :
    M.AlongFrom Q s es ↔ M.AlongFrom Q' s es := by
  constructor
  · intro h
    exact h.of_inv hJs fun s e t hJt hQ ht => ⟨hJ s e t hJt ht, (hiff s e t hJt ht).mp hQ⟩
  · intro h
    exact h.of_inv hJs fun s e t hJt hQ ht => ⟨hJ s e t hJt ht, (hiff s e t hJt ht).mpr hQ⟩

theorem AlwaysFrom.mono {P' : σ → Prop} {s : σ} {es : List ε} (h : M.AlwaysFrom P s es)
    (hP : ∀ s, P s → P' s) : M.AlwaysFrom P' s es :=
  ⟨hP s h.1, h.2.mono fun _ _ t _ => hP t⟩

/-- What always holds, holds in the state the run ends in. -/
theorem AlwaysFrom.last {s t : σ} {es : List ε} (h : M.AlwaysFrom P s es)
    (ht : M.runFrom s es = some t) : P t := by
  induction es generalizing s with
  | nil =>
    rw [runFrom_nil, Option.some.injEq] at ht
    exact ht ▸ h.1
  | cons e es ih =>
    obtain ⟨u, hu, hrest⟩ := Option.bind_eq_some_iff.mp ht
    have hcons := alongFrom_cons.mp h.2 u hu
    exact ih ⟨hcons.1, hcons.2⟩ hrest

/-- **Exactness rule**: `J` is an invariant of every step and, under it, `P`
survives a step exactly when the step meets `C`. Then the runs on which `P`
holds throughout are exactly the runs whose steps all meet `C`. -/
theorem alwaysFrom_iff {J P : σ → Prop} {C : σ → ε → Prop} {s : σ} {es : List ε}
    (hJs : J s) (hPs : P s)
    (hJ : ∀ s e t, J s → M.step s e = some t → J t)
    (hiff : ∀ s e t, J s → P s → M.step s e = some t → (P t ↔ C s e)) :
    M.AlwaysFrom P s es ↔ M.AlongFrom (fun s e _ => C s e) s es := by
  rw [AlwaysFrom, and_iff_right hPs]
  induction es generalizing s with
  | nil => exact Iff.rfl
  | cons e es ih =>
    rw [alongFrom_cons, alongFrom_cons]
    refine forall_congr' fun t => forall_congr' ?_
    intro ht
    -- up to here `J` and `P` hold, so this step decides, and the rest is a run from `t`
    have hstep := hiff s e t hJs hPs ht
    constructor
    · rintro ⟨hPt, hrest⟩
      exact ⟨hstep.mp hPt, (ih (hJ s e t hJs ht) hPt).mp hrest⟩
    · rintro ⟨hC, hrest⟩
      have hPt := hstep.mpr hC
      exact ⟨hPt, (ih (hJ s e t hJs ht) hPt).mpr hrest⟩

/-- The exactness rule for whole runs, where no other invariant is needed. -/
theorem always_iff {C : σ → ε → Prop} {es : List ε} (hinit : P M.init)
    (hiff : ∀ s e t, P s → M.step s e = some t → (P t ↔ C s e)) :
    M.Always P es ↔ M.Along (fun s e _ => C s e) es :=
  alwaysFrom_iff (J := fun _ => True) trivial hinit (fun _ _ _ _ _ => trivial)
    fun s e t _ => hiff s e t

/-- **Persistence rule**: if `P`, once lost, is never regained, it holds throughout a run
exactly if it holds at its end. -/
theorem alwaysFrom_iff_last {J P : σ → Prop} {s t : σ} {es : List ε} (hJs : J s)
    (hJ : ∀ s e t, J s → M.step s e = some t → J t)
    (hback : ∀ s e t, J s → M.step s e = some t → P t → P s) (hrun : M.runFrom s es = some t) :
    M.AlwaysFrom P s es ↔ P t := by
  refine ⟨fun h => h.last hrun, ?_⟩
  intro hPt
  induction es generalizing s with
  | nil =>
    obtain rfl := Option.some.inj hrun
    exact ⟨hPt, trivial⟩
  | cons e es ih =>
    obtain ⟨u, hu, hrest⟩ := Option.bind_eq_some_iff.mp hrun
    obtain ⟨hPu, htail⟩ := ih (hJ s e u hJs hu) hrest
    refine ⟨hback s e u hJs hu hPu, ?_⟩
    rw [alongFrom_cons]
    intro v hv
    obtain rfl := Option.some.inj (hu.symm.trans hv)
    exact ⟨hPu, htail⟩

/-! ## Projections -/

/-- **Projection rule**: if `f` carries every step of `M` to a step of `N`, it carries
every run of `M` to a run of `N`. -/
theorem runFrom_map {σ' : Type w} {ε' : Type x} {N : Machine σ' ε'} {f : σ → σ'} {g : ε → ε'}
    (hstep : ∀ s e, (M.step s e).map f = N.step (f s) (g e)) (s : σ) (es : List ε) :
    (M.runFrom s es).map f = N.runFrom (f s) (es.map g) := by
  induction es generalizing s with
  | nil => rfl
  | cons e es ih =>
    rw [runFrom_cons, List.map_cons, runFrom_cons, ← hstep]
    cases M.step s e with
    | none => rfl
    | some t => exact ih t

/-- **Simulation rule** under an invariant: if the events that a step of `M` emits take `N` along
as long as the step meets `C`, the events that a run of such steps emits do. -/
theorem runFrom_emitted_of_inv {σ' : Type w} {ε' : Type x} {N : Machine σ' ε'} {f : σ → σ'}
    {g : σ → ε → List ε'} {I : σ → Prop} {s t : σ} {es : List ε} (hs : I s)
    (hC : M.AlongFrom C s es)
    (hstep : ∀ s e t, I s → C s e t → M.step s e = some t →
      I t ∧ N.runFrom (f s) (g s e) = some (f t)) (hrun : M.runFrom s es = some t) :
    N.runFrom (f s) (M.emitted g s es) = some (f t) := by
  induction es generalizing s with
  | nil =>
    obtain rfl := Option.some.inj hrun
    rfl
  | cons e es ih =>
    obtain ⟨next, hnext, hrest⟩ := Option.bind_eq_some_iff.mp hrun
    obtain ⟨hc, htail⟩ := alongFrom_cons.mp hC next hnext
    obtain ⟨hI, hone⟩ := hstep s e next hs hc hnext
    rw [emitted, hnext, runFrom_append, hone]
    exact ih hI htail hrest

/-- **Simulation rule**: if the events that a step of `M` emits take `N` along, the events
that a run of `M` emits do. -/
theorem runFrom_emitted {σ' : Type w} {ε' : Type x} {N : Machine σ' ε'} {f : σ → σ'}
    {g : σ → ε → List ε'}
    (hstep : ∀ s e t, M.step s e = some t → N.runFrom (f s) (g s e) = some (f t))
    {s t : σ} {es : List ε} (hrun : M.runFrom s es = some t) :
    N.runFrom (f s) (M.emitted g s es) = some (f t) :=
  runFrom_emitted_of_inv (I := fun _ => True) (C := fun _ _ _ => True) trivial
    (alongFrom_of_step s es fun _ _ _ _ => trivial)
    (fun s e t _ _ ht => ⟨trivial, hstep s e t ht⟩) hrun

/-! ## Environments -/

theorem under_step {E : σ → ε → Prop} [∀ s e, Decidable (E s e)] {s t : σ} {e : ε} :
    (M.under E).step s e = some t ↔ E s e ∧ M.step s e = some t := by
  show (if E s e then M.step s e else none) = some t ↔ _
  by_cases hE : E s e
  · rw [if_pos hE, and_iff_right hE]
  · rw [if_neg hE]
    exact iff_of_false nofun fun h => hE h.1

/-! ## Recording machines -/

section

variable {γ : Type w} {g : γ} {upd : γ → σ → ε → γ}

theorem recording_step {st st' : σ × γ} {e : ε} :
    (M.recording g upd).step st e = some st' ↔
      M.step st.1 e = some st'.1 ∧ st'.2 = upd st.2 st.1 e := by
  obtain ⟨t, r⟩ := st'
  show ((M.step st.1 e).map fun t => (t, upd st.2 st.1 e)) = some (t, r) ↔ _
  rw [Option.map_eq_some_iff]
  constructor
  · rintro ⟨t', ht, heq⟩
    obtain ⟨rfl, rfl⟩ := Prod.mk.inj heq
    exact ⟨ht, rfl⟩
  · rintro ⟨ht, rfl⟩
    exact ⟨t, ht, rfl⟩

theorem recording_under_step {E : σ × γ → ε → Prop} [∀ s e, Decidable (E s e)] {st st' : σ × γ}
    {e : ε} : ((M.recording g upd).under E).step st e = some st' ↔
      E st e ∧ M.step st.1 e = some st'.1 ∧ st'.2 = upd st.2 st.1 e :=
  under_step.trans (and_congr_right fun _ => recording_step)

/-- The exactness rule for a property of the state and the record. -/
theorem recording_always_iff {P : σ × γ → Prop} {C : σ × γ → ε → Prop} {es : List ε}
    (hinit : P (M.init, g))
    (hiff : ∀ st e t, P st → M.step st.1 e = some t → (P (t, upd st.2 st.1 e) ↔ C st e)) :
    (M.recording g upd).Always P es ↔ (M.recording g upd).Along (fun st e _ => C st e) es := by
  refine always_iff hinit ?_
  rintro st e ⟨t, r⟩ hP ht
  obtain ⟨hstep, rfl⟩ := recording_step.mp ht
  exact hiff st e t hP hstep

/-- The record changes nothing about what the machine does. -/
theorem runFrom_recording (st : σ × γ) (es : List ε) :
    ((M.recording g upd).runFrom st es).map Prod.fst = M.runFrom st.1 es := by
  have hproj := runFrom_map (N := M) (f := Prod.fst) (g := id) (M := M.recording g upd)
    (fun s e => by
      show ((M.step s.1 e).map fun t => (t, upd s.2 s.1 e)).map Prod.fst = M.step s.1 e
      cases M.step s.1 e <;> rfl) st es
  rwa [List.map_id] at hproj

end

end Machine

end BleKeyboard.Base
