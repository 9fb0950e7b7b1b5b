import BleKeyboard.Firmware.Step
import BleKeyboard.Report.Edges

/-!
# The account of what has been dispatched

The poll compares each half with a word of its own, and that word is meant to be
what it has dispatched so far. The `Account` of a run is the truth of the matter:
the edges passed to `create_report`, and for each half the word that the last call
of `call_key_report` that looked at it saw.

- `Account.Faithful`: the edges of a half alternate and add up to the word seen;
- `Account.Faithful.call_iff`: a call keeps a half faithful exactly when the word it
  compares that half with is the word the account has for it;
- `accounting_faithful_iff`: hence for whole runs of the firmware.
-/

namespace BleKeyboard

open Base
open Base.Edge

universe u

/-! ## The edges of one half -/

/-- The edges of one half. -/
def half (lOrR : Bool) (h : History) : History := h.filter fun e => e.pos.1 = lOrR

@[simp] theorem half_append (lOrR : Bool) (h es : History) :
    half lOrR (h ++ es) = half lOrR h ++ half lOrR es := List.filter_append ..

/-- The calls of `create_report` for one half. -/
def Poll.halfCalls (keystates : Word) (p : Poll) (lOrR : Bool) : List Call :=
  if lOrR then p.leftCalls keystates else p.rightCalls

theorem Poll.lOrR_of_mem_halfCalls {keystates : Word} {p : Poll} {lOrR : Bool} {c : Call}
    (hc : c ∈ p.halfCalls keystates lOrR) : c.lOrR = lOrR := by
  cases lOrR with
  | false => exact (Poll.mem_rightCalls.mp hc).1
  | true => exact (Poll.mem_leftCalls.mp hc).2.1

/-- Of the edges of a call, one half is the edges of that half's calls. -/
theorem half_edges (keystates : Word) (p : Poll) (lOrR : Bool) :
    half lOrR (p.edges keystates)
      = edges (p.selectLayer keystates) (p.halfCalls keystates lOrR) := by
  have hkeep : ∀ side, half lOrR (edges (p.selectLayer keystates) (p.halfCalls keystates side))
      = if side = lOrR then edges (p.selectLayer keystates) (p.halfCalls keystates side)
        else [] := by
    intro side
    have hside : ∀ e ∈ edges (p.selectLayer keystates) (p.halfCalls keystates side),
        e.pos.1 = side := by
      intro e he
      obtain ⟨c, hc, rfl⟩ := mem_edges.mp he
      exact Poll.lOrR_of_mem_halfCalls hc
    split
    · next heq => exact List.filter_eq_self.mpr fun e he => decide_eq_true (heq ▸ hside e he)
    · next hne =>
      refine List.filter_eq_nil_iff.mpr fun e he heq => hne ?_
      exact (hside e he).symm.trans (of_decide_eq_true heq)
  have hsplit : p.edges keystates
      = edges (p.selectLayer keystates) (p.halfCalls keystates true)
        ++ edges (p.selectLayer keystates) (p.halfCalls keystates false) := edges_append _ _ _
  rw [hsplit, half_append, hkeep, hkeep]
  cases lOrR with
  | false => rfl
  | true => exact List.append_nil _

/-- **Exactness of one loop**: given a half in good order that shows the word `seen`,
the loop that compares `old` with `word` leaves it in good order, showing `word`,
exactly when `old` and `seen` are the same switches. -/
theorem scan_faithful_iff {h : History} {layer : Fin 4} {lOrR : Bool} {old word seen : Word}
    (halt : Alternates h) (hseen : Shows h lOrR seen) :
    (Alternates (h ++ edges layer (scanChanges (word ^^^ old) word lOrR)) ∧
      Shows (h ++ edges layer (scanChanges (word ^^^ old) word lOrR)) lOrR word) ↔
      old.setWidth 24 = seen.setWidth 24 := by
  constructor
  · rintro ⟨halt', hshows'⟩
    refine BitVec.eq_of_getLsbD_eq ?_
    intro i hi
    rw [BitVec.getLsbD_setWidth, BitVec.getLsbD_setWidth]
    congr 1
    by_contra hne
    by_cases hword : word.getLsbD i = old.getLsbD i
    · -- no edge for a switch whose new state the history does not show
      refine hne ?_
      have hnot : (lOrR, i) ∉
          (edges layer (scanChanges (word ^^^ old) word lOrR)).map Edge.pos := by
        intro hmem
        rw [map_pos_edges] at hmem
        obtain ⟨c, hc, hpos⟩ := List.mem_map.mp hmem
        obtain ⟨-, -, hchanged, -⟩ := mem_scanChanges.mp hc
        have hci : c.position = i := (Prod.mk.inj hpos).2
        rw [hci, BitVec.getLsbD_xor, hword, Bool.xor_self] at hchanged
        cases hchanged
      rw [← hword, ← hshows' i hi, pressed_append_of_not_mem _ _ hnot, hseen i hi]
    · -- an edge in the direction that the history has already
      have hdown : word.getLsbD i = seen.getLsbD i := by
        revert hword hne
        cases word.getLsbD i <;> cases old.getLsbD i <;> cases seen.getLsbD i <;> decide
      have hmem : Call.edge layer ⟨word.getLsbD i, lOrR, i⟩
          ∈ edges layer (scanChanges (word ^^^ old) word lOrR) := by
        refine mem_edges.mpr ⟨_, mem_scanChanges.mpr ⟨rfl, hi, ?_, rfl⟩, rfl⟩
        rw [BitVec.getLsbD_xor]
        exact bne_iff_ne.mpr hword
      have htoggle : word.getLsbD i = !pressed h (lOrR, i) :=
        ((alternates_append (edges_scan_nodup _)).mp halt').2 _ hmem
      rw [hseen i hi, ← hdown] at htoggle
      exact (Bool.not_eq_self _).mp htoggle.symm
  · intro heq
    have hold : Shows h lOrR old := hseen.congr heq.symm
    exact ⟨scan_alternates hold halt, scan_pressed hold⟩

/-! ## The account -/

/-- The edges dispatched so far, and the words that they were dispatched for. -/
structure Account where
  edges : History
  left : Word
  right : Word

namespace Account

/-- Nothing dispatched. -/
def zero : Account := ⟨[], 0, 0⟩

/-- The word seen of a half. -/
def word (a : Account) (lOrR : Bool) : Word := if lOrR then a.left else a.right

/-- The account after a call of `call_key_report`; a poll of the sentinel does not
look at the left half. -/
def call (keystates : Word) (p : Poll) (a : Account) : Account where
  edges := a.edges ++ p.edges keystates
  left := if keystates ≠ noKeystates then keystates else a.left
  right := p.lastKeystateRight

/-- The edges of a half go press, release, press, ..., and add up to the word seen. -/
structure Faithful (lOrR : Bool) (a : Account) : Prop where
  alternates : Alternates (half lOrR a.edges)
  shows : Shows (half lOrR a.edges) lOrR (a.word lOrR)

instance (lOrR : Bool) (a : Account) : Decidable (a.Faithful lOrR) :=
  decidable_of_iff (Alternates (half lOrR a.edges) ∧ Shows (half lOrR a.edges) lOrR (a.word lOrR))
    ⟨fun h => ⟨h.1, h.2⟩, fun h => ⟨h.alternates, h.shows⟩⟩

theorem faithful_zero (lOrR : Bool) : zero.Faithful lOrR where
  alternates := alternates_nil
  shows := by
    cases lOrR with
    | false => exact shows_nil false
    | true => exact shows_nil true

end Account

/-- The word that a call compares a half with. -/
def Poll.compared (p : Poll) (lOrR : Bool) : Word :=
  if lOrR then p.lastKeystateLeft else p.dispatchedRight

/-- A call that looks at a half compares it with the word the account has for it. -/
def Account.Agrees (keystates : Word) (p : Poll) (lOrR : Bool) (a : Account) : Prop :=
  (lOrR = true → keystates ≠ noKeystates) →
    (p.compared lOrR).setWidth 24 = (a.word lOrR).setWidth 24

instance (keystates : Word) (p : Poll) (lOrR : Bool) (a : Account) :
    Decidable (a.Agrees keystates p lOrR) := inferInstanceAs (Decidable (_ → _))

/-- **Exactness of one call**, for either half. -/
theorem Account.Faithful.call_iff {keystates : Word} {p : Poll} {lOrR : Bool} {a : Account}
    (ha : a.Faithful lOrR) :
    (a.call keystates p).Faithful lOrR ↔ a.Agrees keystates p lOrR := by
  have hedges : half lOrR (a.call keystates p).edges = half lOrR a.edges
      ++ BleKeyboard.edges (p.selectLayer keystates) (p.halfCalls keystates lOrR) := by
    rw [← half_edges]
    exact half_append _ _ _
  have hfaithful : (a.call keystates p).Faithful lOrR ↔
      Alternates (half lOrR a.edges
        ++ BleKeyboard.edges (p.selectLayer keystates) (p.halfCalls keystates lOrR)) ∧
      Shows (half lOrR a.edges
        ++ BleKeyboard.edges (p.selectLayer keystates) (p.halfCalls keystates lOrR)) lOrR
        ((a.call keystates p).word lOrR) := by
    rw [← hedges]
    exact ⟨fun h => ⟨h.alternates, h.shows⟩, fun h => ⟨h.1, h.2⟩⟩
  rw [hfaithful, Agrees]
  cases lOrR with
  | false =>
    -- the right half is looked at in every call
    have hcalls : p.halfCalls keystates false
        = scanChanges (p.lastKeystateRight ^^^ p.dispatchedRight) p.lastKeystateRight false := by
      rw [p.xor_dispatchedRight]
      rfl
    rw [hcalls, forall_prop_of_true fun h => by cases h]
    exact scan_faithful_iff ha.alternates ha.shows
  | true =>
    by_cases hk : keystates ≠ noKeystates
    · have hcalls : p.halfCalls keystates true
          = scanChanges (keystates ^^^ p.lastKeystateLeft) keystates true := if_pos hk
      have hword : (a.call keystates p).word true = keystates := if_pos hk
      rw [hcalls, hword, forall_prop_of_true fun _ => hk]
      exact scan_faithful_iff ha.alternates ha.shows
    · -- a poll of the sentinel: no left edges, and the account keeps its word
      have hcalls : p.halfCalls keystates true = [] := if_neg hk
      have hword : (a.call keystates p).word true = a.word true := if_neg hk
      rw [hcalls, hword, edges_nil, List.append_nil, forall_prop_of_false fun h => hk (h rfl)]
      exact iff_of_true ⟨ha.alternates, ha.shows⟩ trivial

/-! ## Runs -/

namespace Firmware

variable {κ : Type u}

/-- The account after an event. -/
def nextAccount (a : Account) (fw : Firmware κ) : Event κ → Account
  | .turn _ => if fw.reporting then a.call fw.kbds.keystates fw.poll else a
  | _ => a

/-- If the event is a call of `call_key_report`, it agrees with the account about a
half. -/
def Agrees (a : Account) (lOrR : Bool) (fw : Firmware κ) : Event κ → Prop
  | .turn _ => fw.reporting = true → a.Agrees fw.kbds.keystates fw.poll lOrR
  | _ => True

theorem nextAccount_faithful_iff {a : Account} {lOrR : Bool} (ha : a.Faithful lOrR)
    (fw : Firmware κ) (e : Event κ) :
    (fw.nextAccount a e).Faithful lOrR ↔ fw.Agrees a lOrR e := by
  cases e with
  | turn pins =>
    rw [nextAccount, Agrees]
    split
    · next hrep => rw [forall_prop_of_true hrep, ha.call_iff]
    · next hrep => exact iff_of_true ha fun h => absurd h hrep
  | _ => exact iff_of_true ha trivial

end Firmware

/-- The firmware, with the account of what it has dispatched on the side. -/
def accounting (κ : Type u) (sendErr : Nat → Int) :
    Machine (Firmware κ × Account) (Firmware.Event κ) :=
  (firmware κ sendErr).recording .zero Firmware.nextAccount

theorem accounting_step {κ : Type u} {sendErr : Nat → Int} {s t : Firmware κ × Account}
    {e : Firmware.Event κ} (ht : (accounting κ sendErr).step s e = some t) :
    Firmware.Stepped sendErr s.1 e t.1 ∧ t.2 = s.1.nextAccount s.2 e := by
  obtain ⟨hstep, hrec⟩ := Machine.recording_step.mp ht
  exact ⟨Firmware.stepped hstep, hrec⟩

/-- **Exactness for runs**: a half stays faithful exactly on the runs whose calls all
agree with the account about it. -/
theorem accounting_faithful_iff {κ : Type u} (sendErr : Nat → Int) (lOrR : Bool)
    (es : List (Firmware.Event κ)) :
    (accounting κ sendErr).Always (fun s => s.2.Faithful lOrR) es ↔
      (accounting κ sendErr).Along (fun s e _ => s.1.Agrees s.2 lOrR e) es := by
  refine Machine.recording_always_iff (Account.faithful_zero lOrR) ?_
  intro s e fw' hs _
  exact Firmware.nextAccount_faithful_iff hs s.1 e

end BleKeyboard
