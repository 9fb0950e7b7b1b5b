import BleKeyboard.Host.Displayed

/-!
# Requests that can be answered

The accept and reject keys work in `pairing_mode` only, which the main loop calls only
while `in_pairing_mode` is set. The flag and `mitm_queue` are written independently: a
request may come in when the flag is off, and a security change or the accept key turns
it off with requests waiting.

`requests_answerable_iff`: a waiting request can always be answered exactly on the runs
in which requests come in pairing mode only, security changes find the queue empty, and
the accept key is pressed for the only request.
-/

namespace BleKeyboard

open Base

universe u

namespace Firmware

variable {κ : Type u}

/-- In pairing mode, a turn of the main loop scans the right half and calls
`pairing_mode` with the new word and its changes. -/
theorem mainLoop_of_inPairingMode {fw : Firmware κ} (h : fw.inPairingMode = true)
    (sendErr : Nat → Int) (pins : Pins) :
    fw.mainLoop sendErr pins =
      { fw with poll := fw.poll.scanned pins }.pairingMode (readMatrix pins)
        (readMatrix pins ^^^ fw.poll.lastKeystateRight) := by
  have hrep : ¬fw.reporting = true := by
    rw [reporting, h]
    simp
  rw [mainLoop, if_neg hrep, if_pos h]
  rfl

/-- If a request is waiting, `in_pairing_mode` is true and the next turn of the main loop
goes to `pairing_mode` with what it scans. -/
def Answerable (sendErr : Nat → Int) (fw : Firmware κ) : Prop :=
  fw.requests ≠ [] → fw.inPairingMode = true ∧ ∀ pins,
    fw.mainLoop sendErr pins =
      { fw with poll := fw.poll.scanned pins }.pairingMode (readMatrix pins)
        (readMatrix pins ^^^ fw.poll.lastKeystateRight)

theorem answerable_iff {sendErr : Nat → Int} {fw : Firmware κ} :
    fw.Answerable sendErr ↔ (fw.requests ≠ [] → fw.inPairingMode = true) :=
  imp_congr_right fun _ =>
    ⟨fun h => h.1, fun h => ⟨h, mainLoop_of_inPairingMode h sendErr⟩⟩

instance (sendErr : Nat → Int) (fw : Firmware κ) : Decidable (fw.Answerable sendErr) :=
  decidable_of_iff' _ answerable_iff

/-- The condition on an event: a request comes in pairing mode, a successful security
change finds no request waiting, and the accept key answers the only request. -/
def ModeKept (fw : Firmware κ) : Event κ → Prop
  | .passkeyConfirm .. => fw.inPairingMode = true
  | .securityChanged _ err => err = 0 → fw.requests = []
  | .turn pins => fw.answer pins = some true → fw.requests.tail = []
  | _ => True

/-- **Exactness of one event**. -/
theorem answerable_next_iff {sendErr : Nat → Int} {fw fw' : Firmware κ} {e : Event κ}
    (hs : fw.Answerable sendErr) (hstep : Stepped sendErr fw e fw') :
    fw'.Answerable sendErr ↔ fw.ModeKept e := by
  rw [answerable_iff] at hs ⊢
  rw [requests_eq_next hstep, hstep.inPairingMode]
  cases e with
  | passkeyConfirm conn passkey =>
    -- the queue is not empty afterwards, with room for the request or without
    refine forall_prop_of_true ?_
    rw [nextRequests]
    split
    · exact List.append_ne_nil_of_right_ne_nil _ (List.cons_ne_nil _ _)
    · next hfull =>
      intro hempty
      rw [hempty] at hfull
      exact hfull (Nat.zero_lt_succ 1)
  | securityChanged conn err =>
    show (fw.requests ≠ [] → (if err = 0 then false else fw.inPairingMode) = true) ↔
      (err = 0 → fw.requests = [])
    by_cases herr : err = 0
    · rw [if_pos herr, forall_prop_of_true herr]
      simp
    · rw [if_neg herr]
      exact iff_of_true hs fun h => absurd h herr
  | disconnected conn role advErr =>
    refine iff_of_true (fun hne => ?_) trivial
    rw [nextInPairingMode, hs hne, Bool.or_true]
  | pairingFailed conn =>
    refine iff_of_true (fun hne => hs ?_) trivial
    rw [nextRequests] at hne
    split at hne
    · exact fun hempty => hne (by rw [hempty]; rfl)
    · exact hne
  | turn pins =>
    rw [nextInPairingMode, nextRequests, ModeKept]
    by_cases hacc : fw.answer pins = some true
    · rw [if_pos hacc, hacc, forall_prop_of_true rfl]
      simp
    · rw [if_neg hacc]
      refine iff_of_true (fun hne => hs ?_) fun h => absurd h hacc
      split at hne
      · exact fun hempty => hne (by rw [hempty]; rfl)
      · exact hne
  | _ => exact iff_of_true hs trivial

end Firmware

/-- **Waiting requests can be answered**, exactly on the runs in which requests come in
pairing mode only, successful security changes find no request waiting, and the accept
key is pressed for the only request. -/
theorem requests_answerable_iff {κ : Type u} (sendErr : Nat → Int)
    (es : List (Firmware.Event κ)) :
    (firmware κ sendErr).Always (fun fw => fw.Answerable sendErr) es ↔
      (firmware κ sendErr).Along (fun fw e _ => fw.ModeKept e) es := by
  refine Machine.always_iff ?_ ?_
  · -- no request is waiting
    intro h
    exact absurd rfl h
  · intro fw e fw' hs hstep
    exact Firmware.answerable_next_iff hs (Firmware.stepped hstep)

/-- Two hosts ask, and the user accepts the first: pairing mode is over, and nothing
answers the second. -/
theorem second_request_unanswerable :
    let es : List (Firmware.Event Nat) :=
      [.connected 1 0 .peripheral 0, .connected 2 0 .peripheral 0, .passkeyConfirm 1 111111,
        .passkeyConfirm 2 222222, .turn (pinsOf butAcceptPos)]
    ¬(firmware Nat fun _ => 0).Always (fun fw => fw.Answerable fun _ => 0) es ∧
    ∃ fw, (firmware Nat fun _ => 0).run es = some fw ∧ fw.requests = [⟨2, 222222⟩] ∧
      fw.inPairingMode = false := by
  refine ⟨by decide +kernel, _, rfl, ?_⟩
  decide +kernel

end BleKeyboard
