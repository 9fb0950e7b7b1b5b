import BleKeyboard.Base.Machine

/-!
# Actions in two parts

For a machine an action is one event. A program takes its time over it, and other events come
between its beginning and its end. That makes no difference if the end could as well come before
the events in between, or if the beginning does nothing, and the action takes effect at its end.

`TwoPart.atomic`: every run of such parts is a run of whole actions, each of them at some point
between its beginning and its end.
-/

namespace BleKeyboard.Base

universe u v w

/-- How far an action is: none is going on, or one has begun, or one waits for its end. -/
inductive Phase where
  | idle
  | begun
  | waiting
  deriving DecidableEq, Repr

/-- An event, or a part of an action. -/
inductive Piece (ε : Type v) (α : Type w) where
  | other (e : ε)
  | start
  | finish (a : α)

/-- An action of a machine that can be done in two parts: as an event, its beginning, and its end.
If it waits, its end comes to that only where it is quiet. -/
structure TwoPart {σ : Type u} {ε : Type v} (M : Machine σ ε) (α : Type w) where
  event : α → ε
  between : ε → Bool
  start : σ → σ × Phase
  finish : Phase → α → σ → σ
  quiet : α → σ → Bool
  start_begun : ∀ s a, (start s).2 = .begun →
    M.step s (event a) = some (finish .begun a (start s).1)
  start_waiting : ∀ s a, (start s).2 = .waiting → quiet a s = true →
    M.step s (event a) = some (finish .waiting a s)
  start_other : ∀ s, (start s).2 ≠ .begun → (start s).1 = s
  /-- The end could as well come before an event in between. -/
  finish_comm : ∀ phase a s e, between e = true →
    M.step (finish phase a s) e = (M.step s e).map (finish phase a)
  quiet_step : ∀ a s e t, between e = true → M.step s e = some t → quiet a t = quiet a s

/-- The events are those of the pieces, with each action as one event at some point between its
beginning and its end; or it has come to nothing. -/
inductive AtomicAs {ε : Type v} {α : Type w} (event : α → ε) : List (Piece ε α) → List ε → Prop
  | nil : AtomicAs event [] []
  | other {ps es} (e : ε) (rest : AtomicAs event ps es) : AtomicAs event (.other e :: ps) (e :: es)
  | nothing {ps es} (rest : AtomicAs event ps es) : AtomicAs event (.start :: ps) es
  | action {ps es} (before after : List ε) (a : α) (rest : AtomicAs event ps es) :
    AtomicAs event (.start :: ((before ++ after).map .other ++ .finish a :: ps))
      (before ++ event a :: after ++ es)

namespace TwoPart

variable {σ : Type u} {ε : Type v} {α : Type w} {M : Machine σ ε} (A : TwoPart M α)

/-- The machine with its action in two parts. An action that waits is done as one event when it
ends, unless it is quiet. -/
def machine : Machine (σ × Phase) (Piece ε α) where
  init := (M.init, .idle)
  step s
    | .other e => if A.between e then (M.step s.1 e).map fun t => (t, s.2) else none
    | .start =>
      match s.2 with
      | .idle => some (A.start s.1)
      | .begun | .waiting => none
    | .finish a =>
      match s.2 with
      | .idle => none
      | .begun => some (A.finish .begun a s.1, .idle)
      | .waiting =>
        if A.quiet a s.1 then some (A.finish .waiting a s.1, .idle)
        else (M.step s.1 (A.event a)).map fun t => (t, .idle)

/-! ## The events in between -/

section

variable {es : List ε} (hbetween : ∀ e ∈ es, A.between e = true)
include hbetween

/-- What an end could come before, it could come before all of. -/
theorem runFrom_finish (phase : Phase) (a : α) (s : σ) :
    M.runFrom (A.finish phase a s) es = (M.runFrom s es).map (A.finish phase a) := by
  induction es generalizing s with
  | nil => rfl
  | cons e es ih =>
    have ih := fun t => ih (fun d hd => hbetween d (List.mem_cons_of_mem _ hd)) t
    rw [Machine.runFrom_cons, Machine.runFrom_cons,
      A.finish_comm phase a s e (hbetween e List.mem_cons_self)]
    cases M.step s e with
    | none => rfl
    | some t => exact ih t

theorem quiet_runFrom (a : α) {s t : σ} (hrun : M.runFrom s es = some t) :
    A.quiet a t = A.quiet a s := by
  induction es generalizing s with
  | nil =>
    obtain rfl := Option.some.inj hrun
    rfl
  | cons e es ih =>
    obtain ⟨u, hu, hrest⟩ := Option.bind_eq_some_iff.mp hrun
    rw [ih (fun d hd => hbetween d (List.mem_cons_of_mem _ hd)) hrest,
      A.quiet_step a s e u (hbetween e List.mem_cons_self) hu]

end

/-! ## Whole actions -/

/-- An action that is going on in a run that ends with none going on ends after some events. -/
theorem finish_of_run {s t : σ} {phase : Phase} {ps : List (Piece ε α)} (hphase : phase ≠ .idle)
    (hrun : A.machine.runFrom (s, phase) ps = some (t, .idle)) :
    ∃ es a rest u v, ps = es.map .other ++ .finish a :: rest ∧
      (∀ e ∈ es, A.between e = true) ∧ M.runFrom s es = some u ∧
      A.machine.step (u, phase) (.finish a) = some (v, .idle) ∧
      A.machine.runFrom (v, .idle) rest = some (t, .idle) := by
  induction ps generalizing s with
  | nil => exact absurd (Prod.mk.inj (Option.some.inj hrun)).2 hphase
  | cons p ps ih =>
    obtain ⟨⟨s', phase'⟩, hnext, hrest⟩ := Option.bind_eq_some_iff.mp hrun
    cases p with
    | other e =>
      obtain ⟨hbetween, hstep⟩ := Option.ite_none_right_eq_some.mp hnext
      obtain ⟨s', hs', heq⟩ := Option.map_eq_some_iff.mp hstep
      obtain ⟨rfl, rfl⟩ := Prod.mk.inj heq
      obtain ⟨es, a, rest, u, v, rfl, hes, hrun', hfinish, hend⟩ := ih hrest
      refine ⟨e :: es, a, rest, u, v, rfl, ?_, ?_, hfinish, hend⟩
      · intro d hd
        rcases List.mem_cons.mp hd with rfl | hd
        · exact hbetween
        · exact hes d hd
      · rw [Machine.runFrom_cons, hs']
        exact hrun'
    | start =>
      cases phase with
      | idle => exact absurd rfl hphase
      | begun | waiting => cases hnext
    | finish a =>
      obtain rfl : phase' = .idle := by
        cases phase with
        | idle => exact absurd rfl hphase
        | begun => exact (Prod.mk.inj (Option.some.inj hnext)).2.symm
        | waiting =>
          have hnext : (if A.quiet a s then some (A.finish .waiting a s, Phase.idle)
            else (M.step s (A.event a)).map fun t => (t, .idle)) = some (s', phase') := hnext
          split at hnext
          · exact (Prod.mk.inj (Option.some.inj hnext)).2.symm
          · obtain ⟨v, -, heq⟩ := Option.map_eq_some_iff.mp hnext
            exact (Prod.mk.inj heq).2.symm
      exact ⟨[], a, ps, s, s', rfl, nofun, rfl, hnext, hrest⟩

/-- What is in between can be sorted so that the action is one event. -/
theorem action_of_run {s t : σ} {ps : List (Piece ε α)} (hphase : (A.start s).2 ≠ .idle)
    (hrun : A.machine.runFrom (A.start s) ps = some (t, .idle)) :
    ∃ before after a rest v, ps = (before ++ after).map .other ++ .finish a :: rest ∧
      M.runFrom s (before ++ A.event a :: after) = some v ∧
      A.machine.runFrom (v, .idle) rest = some (t, .idle) := by
  obtain ⟨es, a, rest, u, v, hps, hbetween, hes, hfinish, hend⟩ := A.finish_of_run hphase hrun
  -- where the event could come first, it does
  have hfirst : ∀ phase, M.step s (A.event a) = some (A.finish phase a (A.start s).1) →
      A.finish phase a u = v → ∃ before after a rest v,
        ps = (before ++ after).map .other ++ .finish a :: rest ∧
        M.runFrom s (before ++ A.event a :: after) = some v ∧
        A.machine.runFrom (v, .idle) rest = some (t, .idle) := by
    rintro phase hstep rfl
    refine ⟨[], es, a, rest, _, hps, ?_, hend⟩
    rw [List.nil_append, Machine.runFrom_cons, hstep, Option.bind_some,
      A.runFrom_finish hbetween, hes]
    rfl
  cases hcase : (A.start s).2 with
  | idle => exact absurd hcase hphase
  | begun =>
    rw [hcase] at hfinish
    exact hfirst .begun (A.start_begun s a hcase) (Prod.mk.inj (Option.some.inj hfinish)).1
  | waiting =>
    have hsame : (A.start s).1 = s := A.start_other s (by rw [hcase]; exact Phase.noConfusion)
    rw [hcase] at hfinish
    have hfinish : (if A.quiet a u then some (A.finish .waiting a u, Phase.idle)
      else (M.step u (A.event a)).map fun t => (t, .idle)) = some (v, .idle) := hfinish
    rw [hsame] at hes
    by_cases hquiet : A.quiet a u = true
    · rw [if_pos hquiet] at hfinish
      rw [A.quiet_runFrom hbetween a hes] at hquiet
      refine hfirst .waiting ?_ (Prod.mk.inj (Option.some.inj hfinish)).1
      rw [hsame]
      exact A.start_waiting s a hcase hquiet
    · -- the event comes last
      rw [if_neg hquiet] at hfinish
      obtain ⟨v', hv, heq⟩ := Option.map_eq_some_iff.mp hfinish
      obtain rfl : v' = v := (Prod.mk.inj heq).1
      refine ⟨es, [], a, rest, v', by rwa [List.append_nil], ?_, hend⟩
      rw [Machine.runFrom_append, hes, Option.bind_some, Machine.runFrom_cons, hv]
      rfl

/-- **Whole actions**: a run of parts that ends with no action going on comes to a run in which
each action is one event between its beginning and its end. -/
theorem atomic {s t : σ} {ps : List (Piece ε α)}
    (hrun : A.machine.runFrom (s, .idle) ps = some (t, .idle)) :
    ∃ es, AtomicAs A.event ps es ∧ M.runFrom s es = some t := by
  -- an action is taken off together with what is in between
  induction hlength : ps.length using Nat.strongRecOn generalizing s ps with
  | ind n ih =>
    subst hlength
    cases ps with
    | nil =>
      obtain ⟨rfl, -⟩ := Prod.mk.inj (Option.some.inj hrun)
      exact ⟨[], .nil, rfl⟩
    | cons p ps =>
      obtain ⟨next, hnext, hrest⟩ := Option.bind_eq_some_iff.mp hrun
      cases p with
      | other e =>
        obtain ⟨-, hstep⟩ := Option.ite_none_right_eq_some.mp hnext
        obtain ⟨s', hs', rfl⟩ := Option.map_eq_some_iff.mp hstep
        obtain ⟨es, hes, hrun'⟩ := ih ps.length (Nat.lt_succ_self _) hrest rfl
        refine ⟨e :: es, .other e hes, ?_⟩
        rw [Machine.runFrom_cons, hs']
        exact hrun'
      | finish a => cases hnext
      | start =>
        obtain rfl : A.start s = next := Option.some.inj hnext
        by_cases hphase : (A.start s).2 = .idle
        · have hsame : A.start s = (s, .idle) :=
            Prod.ext (A.start_other s (by rw [hphase]; exact Phase.noConfusion)) hphase
          rw [hsame] at hrest
          obtain ⟨es, hes, hrun'⟩ := ih ps.length (Nat.lt_succ_self _) hrest rfl
          exact ⟨es, .nothing hes, hrun'⟩
        · obtain ⟨before, after, a, rest, v, rfl, haction, hend⟩ := A.action_of_run hphase hrest
          have hlt : rest.length
              < (Piece.start :: ((before ++ after).map .other ++ .finish a :: rest)).length := by
            rw [List.length_cons, List.length_append, List.length_cons]
            omega
          obtain ⟨es, hes, hrun'⟩ := ih rest.length hlt hend rfl
          refine ⟨_, .action before after a hes, ?_⟩
          rw [Machine.runFrom_append, haction]
          exact hrun'

end TwoPart

end BleKeyboard.Base
