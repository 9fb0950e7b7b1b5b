import BleKeyboard.Host.Stream
import BleKeyboard.Link.SplitKeyboard

/-!
# A left half that is not there

`disconnected` leaves the client with the word 0, so the next turn that reports dispatches the
release of every switch that is set in `last_keystate_left`. It is the word dispatched last, unless
a read response has been stored over it.

`left_let_go`: these releases are all that is dispatched for the left half, and in a turn that does
not fault they take the codes of their switches out of the slots.
-/

namespace BleKeyboard

open Base

universe u

/-- The releases of the left switches that are set in a word. -/
def leftReleases (word : Word) : List Call :=
  (List.range 24).filterMap fun i => if word.getLsbD i then some ⟨false, true, i⟩ else none

/-- The codes in a layer of the plain left switches that are set in a word. -/
def leftCodes (layer : Fin 4) (word : Word) : Multiset Byte :=
  (((List.range 24).filter fun i =>
    word.getLsbD i && isPlain (true, i) && keyCode layer (true, i) != 0).map fun i =>
      keyCode layer (true, i) : List Byte)

/-- Releases press nothing, and release the codes of their switches. -/
theorem keysMoved_leftReleases (layer : Fin 4) (word : Word) :
    keysMoved true (edges layer (leftReleases word)) = 0 ∧
      keysMoved false (edges layer (leftReleases word)) = leftCodes layer word := by
  unfold leftReleases leftCodes
  -- induction on the positions, lowest first
  induction List.range 24 with
  | nil => exact ⟨rfl, rfl⟩
  | cons i is ih =>
    obtain ⟨hnone, hall⟩ := ih
    rw [List.filterMap_cons, List.filter_cons]
    by_cases hset : word.getLsbD i = true
    · simp only [hset, if_true, Bool.true_and]
      rw [edges_cons, keysMoved_cons, keysMoved_cons, hnone, hall]
      refine ⟨if_neg fun h => Bool.false_ne_true h.2, ?_⟩
      show (if isPlain (true, i) = true ∧ false = false then
        addKey (keyCode layer (true, i)) _ else _) = _
      by_cases hplain : isPlain (true, i) = true
      · rw [if_pos ⟨hplain, rfl⟩, hplain, Bool.true_and, addKey]
        by_cases hcode : keyCode layer (true, i) = 0
        · rw [if_pos hcode, if_neg fun h => bne_iff_ne.mp h hcode]
        · rw [if_neg hcode, if_pos (bne_iff_ne.mpr hcode)]
          rfl
      · rw [if_neg fun h => hplain h.1, Bool.eq_false_of_not_eq_true hplain, Bool.false_and,
          if_neg Bool.false_ne_true]
    · simp only [Bool.eq_false_of_not_eq_true hset, Bool.false_eq_true, if_false, Bool.false_and]
      exact ⟨hnone, hall⟩

/-- Releases of left switches that go through take their codes out of the slots. -/
theorem keys_leftReleases {sendErr : Nat → Int} {modes : ConnModes} {layer : Fin 4} {word : Word}
    {hid hid' : Hid}
    (hok : createReports sendErr modes layer (leftReleases word) hid = .ok hid') :
    hid.kbd.keys = hid'.kbd.keys + leftCodes layer word := by
  obtain ⟨rs, -, hreported⟩ := createReports_reported hok
  obtain ⟨hpressed, hreleased⟩ := keysMoved_leftReleases layer word
  have haccount := hreported.account
  rw [hpressed, hreleased, add_zero] at haccount
  exact haccount.symm

/-- A turn lets go of the left switches that are set in `last_keystate_left`, one after the other,
and presses none; if no call faults, their codes are out of the slots before the right half is
dispatched. -/
structure Firmware.LetsGo {κ : Type u} (sendErr : Nat → Int) (fw fw' : Firmware κ) : Prop where
  word : fw'.poll.lastKeystateLeft = 0
  calls : fw.poll.leftCalls fw.kbds.keystates = leftReleases fw.poll.lastKeystateLeft
  slots : ∀ hid', fw'.hid = .ok hid' → ∃ hid mid, fw.hid = .ok hid ∧
    createReports sendErr fw.connMode (fw.poll.selectLayer fw.kbds.keystates)
      (leftReleases fw.poll.lastKeystateLeft) hid = .ok mid ∧
    createReports sendErr fw.connMode (fw.poll.selectLayer fw.kbds.keystates)
      fw.poll.rightCalls mid = .ok hid' ∧
    hid.kbd.keys = mid.kbd.keys
      + leftCodes (fw.poll.selectLayer fw.kbds.keystates) fw.poll.lastKeystateLeft

namespace SplitKeyboard

variable {κ : Type u} {sendErr : Nat → Int} {s t : SplitKeyboard κ} {inStep : Bool}

/-- The calls for a left half that is not there. -/
theorem Linked.leftCalls_gone (hs : Linked s inStep) (hdiscovered : s.link.discovered = false) :
    s.fw.poll.leftCalls s.fw.kbds.keystates = leftReleases s.fw.poll.lastKeystateLeft := by
  rw [Poll.leftCalls, leftReleases]
  rcases hs.gone hdiscovered with hzero | ⟨hinvalid, hzero⟩
  · rw [hzero, if_pos (by decide), scanChanges_eq]
    refine List.filterMap_congr fun i _ => ?_
    have hxor : 0 ^^^ s.fw.poll.lastKeystateLeft = s.fw.poll.lastKeystateLeft :=
      BitVec.zero_xor
    have hup : BitVec.getLsbD (0 : Word) i = false := BitVec.getLsbD_zero
    rw [hxor, hup]
  · -- there has not been a link, and no left switch has been down
    have hsentinel : ¬btKbdsValInvalid ≠ noKeystates := not_not.mpr rfl
    rw [hinvalid, hzero, if_neg hsentinel]
    refine (List.filterMap_eq_nil_iff.mpr fun i _ => ?_).symm
    exact if_neg fun h => Bool.false_ne_true (BitVec.getLsbD_zero.symm.trans h)

/-- A turn that reports while the left half is not there. -/
theorem Linked.letsGo (hs : Linked s inStep) (hdiscovered : s.link.discovered = false)
    {pins : Pins} (h : s.step sendErr (.other (.turn pins)) = some t)
    (hrep : s.fw.reporting = true) : s.fw.LetsGo sendErr t.fw where
  word := by
    rw [poll_turn h hrep]
    exact hs.reported_gone hdiscovered
  calls := hs.leftCalls_gone hdiscovered
  slots := by
    intro hid' hok
    obtain ⟨-, fw, hfw, rfl⟩ := step_iff.mp h
    have hok : fw.hid = .ok hid' := hok
    rw [(Firmware.stepped (runFrom_singleton hfw)).hid, Firmware.nextHid, if_pos hrep] at hok
    obtain ⟨hid, hok₀, hcalls⟩ := exceptBind_eq_ok hok
    rw [Poll.calls, hs.leftCalls_gone hdiscovered, createReports, List.foldlM_append] at hcalls
    obtain ⟨mid, hleft, hright⟩ := exceptBind_eq_ok hcalls
    exact ⟨hid, mid, hok₀, hleft, hright, keys_leftReleases hleft⟩

end SplitKeyboard

/-- **A half that is not there**: a turn that reports while the link to the left half is not up, or
not discovered, lets go of all left switches that are set in `last_keystate_left`, presses none,
and leaves the word 0. -/
theorem left_let_go {κ : Type u} (sendErr : Nat → Int) (buttonState : Word)
    (es : List (SplitEvent κ)) :
    (splitKeyboard κ sendErr buttonState).Along (fun s e t => s.1.link.discovered = false →
      ∀ pins, e = .other (.turn pins) → s.1.fw.reporting = true →
        s.1.fw.LetsGo sendErr t.1.fw) es := by
  refine Machine.alongFrom_of_inv (I := fun s => s.1.Linked s.2) es
    (SplitKeyboard.linked_init buttonState) ?_
  intro s e t hs ht
  obtain ⟨hstep, hnext⟩ := split_step ht
  refine ⟨hnext ▸ hs.step hstep, ?_⟩
  rintro hdiscovered pins rfl hrep
  exact hs.letsGo hdiscovered hstep hrep

end BleKeyboard
