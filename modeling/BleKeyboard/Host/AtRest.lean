import BleKeyboard.Host.View

/-!
# A keyboard at rest

The edges of a turn are those between two words of each half, and an answer to a passkey request
is a key that goes down. So a keyboard whose switches stay as they are has nothing to say.

`silent_at_rest`: after two turns that report and find the right half the same, and as long as
it stays so and the client has the word in `last_keystate_left` or none, no report is sent and no
passkey request is answered, whatever becomes of hosts, links and pairing.
-/

namespace BleKeyboard

open Base

universe u

variable {κ : Type u} {sendErr : Nat → Int} {fw fw' : Firmware κ} {e : Firmware.Event κ}
  {word : Word}

namespace Firmware

/-- The client has no word, or the one in `last_keystate_left`, so that the left half has nothing to
dispatch. A read response can move either of the two. -/
def LeftStill (fw : Firmware κ) : Prop :=
  fw.kbds.keystates = noKeystates ∨ fw.kbds.keystates = fw.poll.lastKeystateLeft

instance (fw : Firmware κ) : Decidable fw.LeftStill := inferInstanceAs (Decidable (_ ∨ _))

/-- No half has anything to dispatch, and the right one is as in the word. -/
structure AtRest (fw : Firmware κ) (word : Word) : Prop where
  left : fw.LeftStill
  right : fw.poll.lastKeystateRight = word
  change : fw.poll.rightKeystateChange = 0

/-- A turn finds the right half as it is, and a callback leaves the left half still. -/
def StaysStill (word : Word) (e : Event κ) (fw' : Firmware κ) : Prop :=
  match e with
  | .turn pins => readMatrix pins = word
  | _ => fw'.LeftStill

instance (word : Word) (fw' : Firmware κ) : (e : Event κ) → Decidable (StaysStill word e fw')
  | .turn _ => inferInstanceAs (Decidable (_ = _))
  | .scanConnecting _ | .connected _ _ _ _ | .disconnected _ _ _ | .securityChanged _ _
  | .pmEvt _ _ | .discoveryCompleted _ _ _ | .notified _ | .readResponse _ _ | .readWork
  | .periodicResponse _ _ | .passkeyConfirm _ _ | .authCancel _ | .pairingFailed _
  | .pairingWork => inferInstanceAs (Decidable fw'.LeftStill)

/-- An event that sends no report, moves no key, and answers no passkey request if it is a
turn. -/
def Silent (sendErr : Nat → Int) (fw : Firmware κ) (e : Event κ) (fw' : Firmware κ) : Prop :=
  fw'.hid = fw.hid ∧ ∀ pins, e = .turn pins → fw.calls sendErr e = []

/-! ## Turns -/

theorem xor_self_word (w : Word) : w ^^^ w = 0 := BitVec.xor_self

/-- Words that agree have no edges. -/
theorem calls_eq_nil {p : Poll} {keystates : Word}
    (hleft : keystates = noKeystates ∨ keystates = p.lastKeystateLeft)
    (hchange : p.rightKeystateChange = 0) : p.calls keystates = [] := by
  have hzero : ∀ i, (0 : Word).getLsbD i = false := fun _ => BitVec.getLsbD_zero
  refine List.eq_nil_iff_forall_not_mem.mpr fun c hc => ?_
  rcases List.mem_append.mp hc with hc | hc
  · obtain ⟨hne, -, -, hchanged, -⟩ := Poll.mem_leftCalls.mp hc
    rcases hleft with hinvalid | hsame
    · exact hne hinvalid
    · rw [hsame, xor_self_word, hzero] at hchanged
      cases hchanged
  · obtain ⟨-, -, hchanged, -⟩ := Poll.mem_rightCalls.mp hc
    rw [hchange, hzero] at hchanged
    cases hchanged

/-- A scan that finds the right half as it was answers nothing. -/
theorem answer_eq_none {pins : Pins} (hword : readMatrix pins = fw.poll.lastKeystateRight) :
    fw.answer pins = none := by
  have hnone : ∀ mask : Word, ¬readMatrix pins &&& 0 &&& mask ≠ 0 := by
    intro mask hne
    have hzero : readMatrix pins &&& 0#32 &&& mask = 0#32 := by
      rw [BitVec.and_zero, BitVec.zero_and]
    exact hne hzero
  rw [answer]
  split
  · rfl
  · rw [← hword, xor_self_word, reply]
    split
    · rfl
    · rw [if_neg (hnone _), if_neg (hnone _)]

/-- The words of the poll after a turn that finds the right half as it was. -/
theorem LeftStill.polled (hleft : fw.LeftStill) {pins : Pins}
    (hword : readMatrix pins = fw.poll.lastKeystateRight) :
    (fw.kbds.keystates = noKeystates ∨
        fw.kbds.keystates = (fw.polled pins).lastKeystateLeft) ∧
      (fw.polled pins).lastKeystateRight = fw.poll.lastKeystateRight ∧
      (fw.poll.rightKeystateChange = 0 → (fw.polled pins).rightKeystateChange = 0) := by
  have hchange : ∀ w : Word, w = readMatrix pins ^^^ fw.poll.lastKeystateRight → w = 0 := by
    rintro w rfl
    rw [hword, xor_self_word]
  rw [Firmware.polled]
  by_cases hrep : fw.reporting = true
  · rw [if_pos hrep]
    refine ⟨?_, hword, fun _ => hchange _ rfl⟩
    rw [Poll.scanned_lastKeystateLeft, Poll.reported]
    by_cases hinvalid : fw.kbds.keystates = noKeystates
    · exact .inl hinvalid
    · exact .inr (if_pos hinvalid).symm
  · rw [if_neg hrep]
    split
    · exact ⟨hleft, hword, fun _ => hchange _ rfl⟩
    · exact ⟨hleft, rfl, id⟩

/-! ## One event -/

/-- **One event** of a keyboard at rest. -/
theorem AtRest.step (hrest : fw.AtRest word) (hstill : StaysStill word e fw')
    (hstep : fw.step sendErr e = some fw') : fw'.AtRest word ∧ Silent sendErr fw e fw' := by
  have hs := stepped hstep
  by_cases hturn : ∃ pins, e = .turn pins
  · obtain ⟨pins, rfl⟩ := hturn
    have hword : readMatrix pins = fw.poll.lastKeystateRight :=
      Eq.trans hstill hrest.right.symm
    obtain ⟨hleft, hright, hchange⟩ := hrest.left.polled hword
    refine ⟨⟨?_, ?_, ?_⟩, ?_, ?_⟩
    · rw [LeftStill, hs.kbds, hs.poll]
      exact hleft
    · rw [hs.poll]
      exact hright.trans hrest.right
    · rw [hs.poll]
      exact hchange hrest.change
    · rw [hs.hid, nextHid]
      split
      · rw [callKeyReport, calls_eq_nil hrest.left hrest.change]
        cases fw.hid <;> rfl
      · rfl
    · rintro _ -
      rw [calls_turn, answer_eq_none hword]
      rfl
  · have hturn : ∀ pins, e ≠ .turn pins := fun pins heq => hturn ⟨pins, heq⟩
    obtain ⟨hright, hchange⟩ := fw.nextPoll_right hturn
    refine ⟨⟨?_, ?_, ?_⟩, ?_, fun pins heq => absurd heq (hturn pins)⟩
    · cases e with
      | turn pins => exact absurd rfl (hturn pins)
      | _ => exact hstill
    · rw [hs.poll, hright]
      exact hrest.right
    · rw [hs.poll, hchange]
      exact hrest.change
    · rw [hs.hid]
      cases e with
      | turn pins => exact absurd rfl (hturn pins)
      | _ => rfl

/-- Two turns that report and find the right half the same bring the keyboard to rest. -/
theorem atRest_of_turns {fw₁ fw₂ : Firmware κ} {pins pins' : Pins} (hrep : fw.reporting = true)
    (h : fw.step sendErr (.turn pins) = some fw₁) (hrep₁ : fw₁.reporting = true)
    (h₁ : fw₁.step sendErr (.turn pins') = some fw₂) (hsame : readMatrix pins = readMatrix pins') :
    fw₂.AtRest (readMatrix pins') := by
  have hpoll : fw₁.poll = (fw.poll.reported fw.kbds.keystates).scanned pins := by
    rw [(stepped h).poll, nextPoll, Firmware.polled, if_pos hrep]
  have hpoll₁ : fw₂.poll = (fw₁.poll.reported fw₁.kbds.keystates).scanned pins' := by
    rw [(stepped h₁).poll, nextPoll, Firmware.polled, if_pos hrep₁]
  have hkbds : fw₂.kbds = fw₁.kbds := (stepped h₁).kbds
  refine ⟨?_, ?_, ?_⟩
  · rw [LeftStill, hkbds, hpoll₁, Poll.scanned_lastKeystateLeft, Poll.reported]
    by_cases hinvalid : fw₁.kbds.keystates = noKeystates
    · exact .inl hinvalid
    · exact .inr (if_pos hinvalid).symm
  · rw [hpoll₁]
    rfl
  · have hright : (fw₁.poll.reported fw₁.kbds.keystates).lastKeystateRight = readMatrix pins := by
      rw [hpoll]
      rfl
    rw [hpoll₁, Poll.scanned_rightKeystateChange, hright, hsame, xor_self_word]

end Firmware

/-! ## Runs -/

/-- **Silence**: from any state, once two turns in a row have reported and found the right half
the same, and as long as further turns find it so and every callback leaves the client with the
word that is in `last_keystate_left` then or with none, no event sends a report or moves a key, and
no turn answers a passkey request. -/
theorem silent_at_rest {fw₁ fw₂ : Firmware κ} {pins pins' : Pins} (hrep : fw.reporting = true)
    (h : fw.step sendErr (.turn pins) = some fw₁) (hrep₁ : fw₁.reporting = true)
    (h₁ : fw₁.step sendErr (.turn pins') = some fw₂) (hsame : readMatrix pins = readMatrix pins')
    {es : List (Firmware.Event κ)}
    (hstill : (firmware κ sendErr).AlongFrom
      (fun _ e t => Firmware.StaysStill (readMatrix pins') e t) fw₂ es) :
    (firmware κ sendErr).AlongFrom (Firmware.Silent sendErr) fw₂ es :=
  hstill.of_inv (I := fun fw => fw.AtRest (readMatrix pins'))
    (Firmware.atRest_of_turns hrep h hrep₁ h₁ hsame)
    fun _ _ _ hrest hone ht => hrest.step hone ht

/-- A key stays down, and in the meantime the host asks for a passkey, leaves, and comes back. -/
theorem silent_at_rest_held :
    let fw := ((firmware Nat fun _ => 0).run
      [.connected 1 0 .peripheral 0, .securityChanged 1 0, .turn (pinsOf 8)]).getD .init
    let fw₁ := (fw.mainLoop (fun _ => 0) (pinsOf 8)).1
    let fw₂ := (fw₁.mainLoop (fun _ => 0) (pinsOf 8)).1
    let es : List (Firmware.Event Nat) := [.passkeyConfirm 1 123456, .disconnected 1 .peripheral 0,
      .turn (pinsOf 8), .pairingWork, .turn (pinsOf 8), .connected 2 0 .peripheral 0,
      .securityChanged 2 0, .turn (pinsOf 8)]
    ((firmware Nat fun _ => 0).runFrom fw₂ es).isSome = true ∧
      (firmware Nat fun _ => 0).AlongFrom (Firmware.Silent fun _ => 0) fw₂ es :=
  ⟨by decide +kernel, silent_at_rest (by decide +kernel) rfl (by decide +kernel) rfl rfl
    (by decide +kernel)⟩

end BleKeyboard
