import BleKeyboard.Firmware.Step

/-!
# The request the user is asked about

The accept and reject keys answer the head of `mitm_queue`; what the user has seen is
whatever `pairing_process` displayed last. `num_comp_reply` submits the work again when
it takes a request out and others wait behind it. `pairing_failed` takes one out as
well, and does not.

`head_displayed_iff`: a waiting head has been displayed, or is about to be, exactly on
the runs in which no failure takes a request out in front of another one without the
work being pending anyway.
-/

namespace BleKeyboard

open Base

universe u

namespace Firmware

variable {κ : Type u}

/-- The requests in `mitm_queue`, the head first. -/
def requests (fw : Firmware κ) : List (PairingDataMitm κ) := fw.pairing.mitmQueue.items

/-- A failure of `conn` takes the head out of the queue. -/
def TakesHead (fw : Firmware κ) (conn : Conn) : Prop :=
  fw.requests.head?.map PairingDataMitm.conn = some conn

instance (fw : Firmware κ) (conn : Conn) : Decidable (fw.TakesHead conn) :=
  inferInstanceAs (Decidable (_ = _))

/-- The requests in `mitm_queue` after an event. -/
def nextRequests (fw : Firmware κ) : Event κ → List (PairingDataMitm κ)
  | .passkeyConfirm conn passkey =>
    if fw.requests.length < hidsMaxClientCount then fw.requests ++ [⟨conn, passkey⟩]
    else fw.requests
  | .pairingFailed conn => if fw.TakesHead conn then fw.requests.tail else fw.requests
  | .turn pins => if (fw.answer pins).isSome then fw.requests.tail else fw.requests
  | _ => fw.requests

theorem requests_eq_next {sendErr : Nat → Int} {fw fw' : Firmware κ} {e : Event κ}
    (hstep : Stepped sendErr fw e fw') : fw'.requests = fw.nextRequests e := by
  rw [requests, hstep.pairing]
  cases e with
  | passkeyConfirm conn passkey => exact fw.pairing.authPasskeyConfirm_items conn passkey
  | pairingFailed conn => exact fw.pairing.pairingFailed_items conn
  | pairingWork => exact congrArg MsgQueue.items fw.pairing.pairingProcess_mitmQueue
  | turn pins =>
    rw [nextPairing, nextRequests]
    cases fw.answer pins with
    | none => rfl
    | some accept => exact fw.pairing.numCompReply_items accept
  | _ => rfl

/-- Has the head been displayed since it became the head? -/
def nextDisplayed (displayed : Bool) (fw : Firmware κ) : Event κ → Bool
  | .pairingWork => !fw.requests.isEmpty
  | .passkeyConfirm .. => displayed && !fw.requests.isEmpty
  | .pairingFailed conn => displayed && !decide (fw.TakesHead conn)
  | .turn pins => displayed && (fw.answer pins).isNone
  | _ => displayed

/-- A waiting head has been displayed, or the work that displays it is pending. -/
def Attended (displayed : Bool) (fw : Firmware κ) : Prop :=
  fw.requests ≠ [] → displayed = true ∨ fw.pairing.workPending = true

instance (displayed : Bool) (fw : Firmware κ) : Decidable (fw.Attended displayed) :=
  inferInstanceAs (Decidable (_ → _))

/-- If the event is a failure that takes the head out, no request waits behind it, or
the work is pending. -/
def FailsLast (fw : Firmware κ) : Event κ → Prop
  | .pairingFailed conn => fw.TakesHead conn →
      fw.requests.tail = [] ∨ fw.pairing.workPending = true
  | _ => True

/-- **Exactness of one event**. -/
theorem attended_next_iff {sendErr : Nat → Int} {displayed : Bool} {fw fw' : Firmware κ}
    {e : Event κ} (hs : fw.Attended displayed) (hstep : Stepped sendErr fw e fw') :
    fw'.Attended (fw.nextDisplayed displayed e) ↔ fw.FailsLast e := by
  rw [Attended, requests_eq_next hstep, hstep.pairing]
  cases e with
  | pairingWork =>
    refine iff_of_true (fun hne => .inl ?_) trivial
    have hne : fw.requests ≠ [] := hne
    rw [nextDisplayed, List.isEmpty_eq_false_iff.mpr hne]
    rfl
  | passkeyConfirm conn passkey =>
    refine iff_of_true (fun _ => ?_) trivial
    rw [nextPairing, Pairing.authPasskeyConfirm_workPending, Pairing.authPasskeyConfirm_items,
      nextDisplayed, requests]
    cases hitems : fw.pairing.mitmQueue.items with
    | nil => exact .inr rfl
    | cons d ds =>
      -- the head stays, and the work stays pending
      have hne : fw.requests ≠ [] := by
        rw [requests, hitems]
        exact List.cons_ne_nil _ _
      rcases hs hne with hshown | hpending
      · exact .inl (by rw [hshown]; rfl)
      · exact .inr (by rw [hpending, ite_self])
  | pairingFailed conn =>
    rw [nextPairing, nextRequests, Pairing.pairingFailed_workPending, nextDisplayed, FailsLast]
    by_cases htakes : fw.TakesHead conn
    · rw [if_pos htakes, decide_eq_true htakes, Bool.not_true, Bool.and_false,
        forall_prop_of_true htakes]
      simp only [Bool.false_eq_true, false_or]
      exact Decidable.imp_iff_not_or.trans (or_congr_left not_not)
    · rw [if_neg htakes, decide_eq_false htakes, Bool.not_false, Bool.and_true]
      exact iff_of_true hs fun h => absurd h htakes
  | turn pins =>
    refine iff_of_true (fun hne => ?_) trivial
    rw [nextRequests] at hne
    rw [nextPairing, nextDisplayed]
    cases hans : fw.answer pins with
    | none =>
      rw [hans] at hne
      rcases hs hne with hshown | hpending
      · exact .inl (by rw [hshown]; rfl)
      · exact .inr hpending
    | some accept =>
      -- the answer submits the next request
      rw [hans] at hne
      have hne : fw.pairing.mitmQueue.items.tail ≠ [] := hne
      refine .inr ?_
      show (fw.pairing.numCompReply accept).1.workPending = true
      rw [Pairing.numCompReply_workPending, List.isEmpty_eq_false_iff.mpr hne]
      rfl
  | _ => exact iff_of_true hs trivial

end Firmware

/-- The firmware, with whether the head has been displayed on the side. -/
def displaying (κ : Type u) (sendErr : Nat → Int) :
    Machine (Firmware κ × Bool) (Firmware.Event κ) :=
  (firmware κ sendErr).recording false Firmware.nextDisplayed

/-- **Only what was shown is answered**: a waiting head has been displayed, or
`pairing_work` is pending, exactly on the runs in which no failure takes a request out
in front of another one while the work is not pending. -/
theorem head_displayed_iff {κ : Type u} (sendErr : Nat → Int) (es : List (Firmware.Event κ)) :
    (displaying κ sendErr).Always (fun s => s.1.Attended s.2) es ↔
      (displaying κ sendErr).Along (fun s e _ => s.1.FailsLast e) es := by
  refine Machine.recording_always_iff ?_ ?_
  · -- no request is waiting
    intro h
    exact absurd rfl h
  · intro s e fw' hs hstep
    exact Firmware.attended_next_iff hs (Firmware.stepped hstep)

/-- Two hosts ask, the first one's passkey is displayed, and its pairing fails. The
second request is at the head now, and the accept key would confirm it unseen. -/
theorem second_request_never_displayed :
    let es : List (Firmware.Event Nat) :=
      [.connected 1 0 .peripheral 0, .connected 2 0 .peripheral 0, .passkeyConfirm 1 111111,
        .pairingWork, .passkeyConfirm 2 222222, .pairingFailed 1]
    ¬(displaying Nat fun _ => 0).Always (fun s => s.1.Attended s.2) es ∧
    ∃ s, (displaying Nat fun _ => 0).run es = some s ∧ s.1.requests = [⟨2, 222222⟩] ∧
      s.1.pairing.workPending = false := by
  refine ⟨by decide +kernel, _, rfl, ?_⟩
  decide +kernel

end BleKeyboard
