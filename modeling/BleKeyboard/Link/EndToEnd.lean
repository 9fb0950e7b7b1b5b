import BleKeyboard.Host.View
import BleKeyboard.Link.SplitKeyboard
import BleKeyboard.Report.Meaning

/-!
# From the switches to the host

The results on the parts, put together: the left half and its link (`SplitKeyboard`), the main
loop on the base layer (`BaseLayer`), the reports by their map (`Meaning`), and what has been
handed to the stack for a host (`View`), whether the stack takes it or not.

`host_told_switches`: as long as only turns that report change the words of the poll, after such a
turn, once the client has caught up, the last report handed to the stack for the host says the
switches that are down: those of the right half, and those of the left half if it is there.
-/

namespace BleKeyboard

open Base
open Base.Edge

universe u

/-! ## The main loop on the base layer -/

/-- At most six non-modifier switches are down before a call of `call_key_report` or in it. -/
def Poll.AtMostSixHeld (keystates : Word) (p : Poll) : Prop :=
  ((Finset.univ ×ˢ Finset.range 24 : Finset Pos).filter fun q =>
    isModChr q.1 q.2 = false ∧ (p.shown q || p.seen keystates q) = true).card ≤ keyPressMax

instance (keystates : Word) (p : Poll) : Decidable (p.AtMostSixHeld keystates) :=
  inferInstanceAs (Decidable (_ ≤ _))

namespace Firmware

variable {κ : Type u} {sendErr : Nat → Int}

/-- The turn touches no layer key, and finds at most six keys. -/
def PlainTurn (fw : Firmware κ) (pins : Pins) : Prop :=
  Frame.NoLayerKey ⟨fw.connMode, fw.kbds.keystates, pins⟩ ∧
    fw.poll.AtMostSixHeld fw.kbds.keystates

instance (fw : Firmware κ) (pins : Pins) : Decidable (fw.PlainTurn pins) :=
  inferInstanceAs (Decidable (_ ∧ _))

/-- A turn that reports is a plain one. -/
def OnBase (fw : Firmware κ) : Event κ → Prop
  | .turn pins => fw.reporting = true → fw.PlainTurn pins
  | _ => True

instance (fw : Firmware κ) : DecidablePred fw.OnBase
  | .turn _ => inferInstanceAs (Decidable (_ → _))
  | .scanConnecting _ | .connected _ _ _ _ | .disconnected _ _ _ | .securityChanged _ _
  | .pmEvt _ _ | .discoveryCompleted _ _ _ | .notified _ | .readResponse _ _ | .readWork
  | .periodicResponse _ _ | .passkeyConfirm _ _ | .authCancel _ | .pairingFailed _
  | .pairingWork => .isTrue trivial

/-- The words of the poll and the keyboard state are those of a run on the base layer. -/
def ShowsPoll (fw : Firmware κ) : Prop := ∃ h b, BaseInv (⟨fw.poll, fw.hid⟩, h, b)

/-- One event on the base layer. -/
theorem ShowsPoll.step {fw fw' : Firmware κ} {e : Event κ} (h : fw.ShowsPoll)
    (hkeep : fw.KeepsWords e) (hbase : fw.OnBase e) (hstep : fw.step sendErr e = some fw') :
    fw'.ShowsPoll := by
  have hs := stepped hstep
  by_cases hrep : fw.Reports e
  · cases e with
    | turn pins =>
      have hrep : fw.reporting = true := hrep
      obtain ⟨hlayer, hsix⟩ := hbase hrep
      obtain ⟨hist, b, hinv⟩ := h
      have hheld : b.AtMostSixHeld ⟨fw.connMode, fw.kbds.keystates, pins⟩ := by
        unfold Board.AtMostSixHeld
        rw [hinv.sim.before_eq, hinv.sim.after_eq]
        exact hsix
      rw [ShowsPoll, hs.poll, hs.hid, nextPoll, polled, nextHid, if_pos hrep, if_pos hrep]
      exact ⟨_, _, hinv.turn sendErr hlayer hheld⟩
    | _ => exact hrep.elim
  · rw [ShowsPoll, hs.poll, hs.hid, hkeep.resolve_left hrep, nextHid_of_not_reports hrep]
    exact h

/-- What a report of the keyboard state says. -/
theorem ShowsPoll.usages {fw : Firmware κ} (h : fw.ShowsPoll) :
    ∃ hid, fw.hid = .ok hid ∧ ∀ u, u ∈ inputUsages (keyReport hid.kbd) ↔
      ∃ q : Pos, q.2 < 24 ∧ fw.poll.shown q = true ∧ u ∈ switchUsages 0 q := by
  obtain ⟨hist, b, hinv⟩ := h
  obtain ⟨hid, hok, hshows⟩ := hinv.showsBase
  refine ⟨hid, hok, fun u => ?_⟩
  have hbefore : bitAt b.left b.right = fw.poll.shown := hinv.sim.before_eq
  rw [hshows.showsKeys.usages u, hbefore]

end Firmware

/-! ## The whole keyboard -/

namespace SplitKeyboard

variable {κ : Type u} {sendErr : Nat → Int}

/-- What the event runs of the firmware changes the words of the poll in turns that report only. -/
def KeepsWords (s : SplitKeyboard κ) (e : SplitEvent κ) : Prop :=
  ∀ fe ∈ s.callbacks e, s.fw.KeepsWords fe

instance (s : SplitKeyboard κ) (e : SplitEvent κ) : Decidable (s.KeepsWords e) :=
  inferInstanceAs (Decidable (∀ _ ∈ _, _))

/-- What the event runs of the firmware is on the base layer. -/
def OnBase (s : SplitKeyboard κ) (e : SplitEvent κ) : Prop := ∀ fe ∈ s.callbacks e, s.fw.OnBase fe

instance (s : SplitKeyboard κ) (e : SplitEvent κ) : Decidable (s.OnBase e) :=
  inferInstanceAs (Decidable (∀ _ ∈ _, _))

/-- The left word that a report is to show: nothing of a half that is not there. -/
def leftWord (s : SplitKeyboard κ) : Word := if s.link.discovered then s.left.appKeystate else 0

/-- The client has the word of the last left scan, if the left half is there, and it is not the
sentinel. -/
def CaughtUp (s : SplitKeyboard κ) (inStep : Bool) : Prop :=
  s.link.discovered = true →
    inStep = true ∧ s.halves.Quiet ∧ s.left.appKeystate ≠ noKeystates

/-- The left word that a turn goes by, once the client has caught up. -/
theorem Linked.reported {s : SplitKeyboard κ} {inStep : Bool} (hs : s.Linked inStep)
    (hcaught : s.CaughtUp inStep) :
    (s.fw.poll.reported s.fw.kbds.keystates).lastKeystateLeft = s.leftWord := by
  cases hdiscovered : s.link.discovered with
  | false =>
    rw [hs.reported_gone hdiscovered, leftWord, hdiscovered]
    rfl
  | true =>
    obtain ⟨hin, hquiet, hne⟩ := hcaught hdiscovered
    have hsettles := hs.halves.settles hin
    rw [hquiet.2] at hsettles
    have hagree : s.fw.kbds.keystates = s.left.appKeystate := hsettles
    rw [hagree, Poll.reported_of_ne hne, leftWord, hdiscovered]
    rfl

end SplitKeyboard

end BleKeyboard
