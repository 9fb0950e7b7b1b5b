import BleKeyboard.Firmware.Main

/-!
# What each event changes

For each variable of the firmware that the results argue about, its value after an
event as a function of the state before (`nextKbds`, `nextPoll`, `nextHid`,
`nextInPairingMode`, `nextPairing`, `nextConns`). `stepped` says that these are the
values after a step: every other module argues from it, and unfolds no handler.
-/

namespace BleKeyboard.Firmware

open Base

universe u

variable {κ : Type u} (sendErr : Nat → Int) (fw : Firmware κ)

/-! ## Handlers leave most variables alone -/

theorem connected_frame (conn : Conn) (err : Byte) (role : Role) (hidsErr : Int) :
    ∃ defaultConn isAdv, fw.connected conn err role hidsErr =
      { fw with
        defaultConn, isAdv
        connMode := if err = 0 ∧ role = .peripheral ∧ hidsErr = 0 then addConn conn fw.connMode
          else fw.connMode } := by
  unfold connected
  by_cases herr : err = 0
  · rw [if_neg (not_not.mpr herr)]
    cases role with
    | central => exact ⟨fw.defaultConn, fw.isAdv, by simp⟩
    | peripheral =>
      by_cases hhids : hidsErr = 0
      · exact ⟨fw.defaultConn, false, by simp [herr, hhids]⟩
      · exact ⟨fw.defaultConn, fw.isAdv, by simp [hhids]⟩
  · rw [if_pos herr]
    by_cases hdef : some conn = fw.defaultConn
    · exact ⟨none, fw.isAdv, by rw [if_pos hdef, if_neg fun h => herr h.1]⟩
    · exact ⟨fw.defaultConn, fw.isAdv, by rw [if_neg hdef, if_neg fun h => herr h.1]⟩

theorem disconnected_frame (conn : Conn) (role : Role) (advErr : Int) :
    ∃ defaultConn isAdv, fw.disconnected conn role advErr =
      { fw with
        defaultConn, isAdv
        kbds := if role = .central ∧ fw.defaultConn = some conn then
          { fw.kbds with keystates := 0x00 } else fw.kbds
        connMode := if role = .peripheral then removeConn conn fw.connMode else fw.connMode
        inPairingMode := (role = .peripheral && !isAnyDevConnected conn fw.connMode)
          || fw.inPairingMode } := by
  unfold disconnected
  cases role with
  | central =>
    by_cases hdef : fw.defaultConn = some conn
    · exact ⟨none, fw.isAdv, by simp [hdef]⟩
    · exact ⟨fw.defaultConn, fw.isAdv, by simp [hdef]⟩
  | peripheral =>
    refine ⟨fw.defaultConn, if advErr = 0 then true else fw.isAdv, ?_⟩
    cases isAnyDevConnected conn fw.connMode <;> simp

theorem securityChanged_eq (conn : Conn) (err : Byte) :
    fw.securityChanged conn err =
      { fw with inPairingMode := if err = 0 then false else fw.inPairingMode } := by
  unfold securityChanged
  split <;> rfl

theorem hidsPmEvtHandler_frame (evt : PmEvt) (conn : Conn) :
    ∃ connMode, fw.hidsPmEvtHandler evt conn = { fw with connMode } ∧
      ∀ i (hi : i < hidsMaxClientCount), connMode[i].conn = fw.connMode[i].conn := by
  unfold hidsPmEvtHandler
  cases (List.finRange hidsMaxClientCount).find? fun i => (fw.connMode.get i).conn = some conn with
  | none => exact ⟨fw.connMode, rfl, fun _ _ => rfl⟩
  | some i =>
    refine ⟨_, rfl, ?_⟩
    intro j hj
    rw [Vector.getElem_set]
    split
    · next hij =>
      subst hij
      rfl
    · rfl

/-- The answer that `pairing_mode` gives to the first request, if it gives one. -/
def reply (fw : Firmware κ) (word change : Word) : Option Bool :=
  if fw.pairing.mitmQueue.items.isEmpty then none
  else if word &&& change &&& butAcceptPos ≠ 0 then some true
  else if word &&& change &&& butRejectPos ≠ 0 then some false
  else none

/-- The answer that a turn of the main loop gives. -/
def answer (fw : Firmware κ) (pins : Pins) : Option Bool :=
  if fw.reporting || !fw.inPairingMode then none
  else fw.reply (readMatrix pins) (readMatrix pins ^^^ fw.poll.lastKeystateRight)

/-- The words of the poll after a turn of the main loop. -/
def polled (fw : Firmware κ) (pins : Pins) : Poll :=
  if fw.reporting then (fw.poll.reported fw.kbds.keystates).scanned pins
  else if fw.inPairingMode then fw.poll.scanned pins
  else fw.poll

/-- The state after an answer to the first request. -/
def replied (fw : Firmware κ) (answer : Option Bool) (pairingButtonPressed : Bool) : Firmware κ :=
  { fw with
    pairingButtonPressed
    inPairingMode := if answer = some true then false else fw.inPairingMode
    pairing := answer.elim fw.pairing fun accept => (fw.pairing.numCompReply accept).1 }

/-- The stack calls that come with an answer. -/
def replyCalls (fw : Firmware κ) (answer : Option Bool) : List (PairingCall κ) :=
  answer.elim [] fun accept => (fw.pairing.numCompReply accept).2

theorem pairingMode_frame (word change : Word) :
    ∃ pairingButtonPressed,
      fw.pairingMode word change =
        (fw.replied (fw.reply word change) pairingButtonPressed,
          fw.replyCalls (fw.reply word change)) := by
  have hempty : fw.pairing.mitmQueue.numUsed ≠ 0 ↔
      ¬fw.pairing.mitmQueue.items.isEmpty = true := by
    rw [MsgQueue.numUsed, List.isEmpty_iff, ← List.length_eq_zero_iff]
  have hrest : ∀ answer, answer = none → ∃ pressed,
      (if fw.pairingButtonPressed && change &&& (butAcceptPos ||| butRejectPos) ≠ 0 then
        ({ fw with pairingButtonPressed := false }, [])
      else ((fw, []) : Firmware κ × List (PairingCall κ)))
        = (fw.replied answer pressed, fw.replyCalls answer) := by
    rintro answer rfl
    split
    · exact ⟨false, rfl⟩
    · exact ⟨fw.pairingButtonPressed, rfl⟩
  -- `pairing_mode` looks at the queue, then the accept key, then the reject key
  by_cases hq : fw.pairing.mitmQueue.numUsed ≠ 0
  · by_cases hacc : word &&& change &&& butAcceptPos ≠ 0
    · have hreply : fw.reply word change = some true := by
        rw [reply, if_neg (hempty.mp hq), if_pos hacc]
      simp only [pairingMode, if_pos hq, if_pos hacc, hreply]
      exact ⟨true, rfl⟩
    · by_cases hrej : word &&& change &&& butRejectPos ≠ 0
      · have hreply : fw.reply word change = some false := by
          rw [reply, if_neg (hempty.mp hq), if_neg hacc, if_pos hrej]
        simp only [pairingMode, if_pos hq, if_neg hacc, if_pos hrej, hreply]
        exact ⟨true, rfl⟩
      · simp only [pairingMode, if_pos hq, if_neg hacc, if_neg hrej]
        exact hrest _ (by rw [reply, if_neg (hempty.mp hq), if_neg hacc, if_neg hrej])
  · simp only [pairingMode, if_neg hq]
    exact hrest _ (by rw [reply, if_pos (not_not.mp fun h => hq (hempty.mpr h))])

/-- One turn of the main loop, variable by variable. -/
theorem mainLoop_frame (pins : Pins) :
    ∃ pairingButtonPressed, fw.mainLoop sendErr pins =
      ({ fw.replied (fw.answer pins) pairingButtonPressed with
        poll := fw.polled pins
        hid := if fw.reporting then
          (callKeyReport sendErr fw.connMode fw.kbds.keystates fw.poll fw.hid).2 else fw.hid },
        fw.replyCalls (fw.answer pins)) := by
  by_cases hrep : fw.reporting = true
  · have hanswer : fw.answer pins = none := by
      rw [answer, hrep]
      rfl
    simp only [mainLoop, polled, if_pos hrep, hanswer]
    exact ⟨fw.pairingButtonPressed, rfl⟩
  · by_cases hpair : fw.inPairingMode = true
    · have hanswer : fw.answer pins
          = fw.reply (readMatrix pins) (readMatrix pins ^^^ fw.poll.lastKeystateRight) := by
        rw [answer, Bool.eq_false_of_not_eq_true hrep, hpair]
        rfl
      obtain ⟨pressed, heq⟩ := pairingMode_frame { fw with poll := fw.poll.scanned pins }
        (readMatrix pins) (readMatrix pins ^^^ fw.poll.lastKeystateRight)
      simp only [mainLoop, polled, if_neg hrep, if_pos hpair, hanswer]
      exact ⟨pressed, heq⟩
    · have hanswer : fw.answer pins = none := by
        rw [answer, Bool.eq_false_of_not_eq_true hpair, Bool.not_false, Bool.or_true, if_pos rfl]
      simp only [mainLoop, polled, if_neg hrep, if_neg hpair, hanswer]
      exact ⟨fw.pairingButtonPressed, rfl⟩

/-- The stack calls of a turn are those of its answer. -/
theorem calls_turn (pins : Pins) :
    fw.calls sendErr (.turn pins) = fw.replyCalls (fw.answer pins) := by
  obtain ⟨pressed, heq⟩ := fw.mainLoop_frame sendErr pins
  exact congrArg Prod.snd heq

/-! ## Events, one variable at a time -/

/-- The client after an event. -/
def nextKbds (fw : Firmware κ) : Event κ → KbdsClient
  | .disconnected conn role _ =>
    if role = .central ∧ fw.defaultConn = some conn then { fw.kbds with keystates := 0x00 }
    else fw.kbds
  | .discoveryCompleted dm subscribeErr readErr =>
    (discoveryCompletedCb dm subscribeErr readErr fw.kbds).1
  | .notified data => ((fw.kbds.notifyProcess data).map Prod.fst).getD fw.kbds
  | .readResponse err data => (fw.kbds.readProcess err data).1
  | .readWork => fw.kbds.kbdsReadValueHandler.1
  | .periodicResponse err data => (fw.kbds.periodicReadProcess err data).1
  | _ => fw.kbds

/-- The words of the poll after an event. -/
def nextPoll (fw : Firmware κ) : Event κ → Poll
  | .readResponse err data => invoke (fw.kbds.readProcess err data).2 fw.poll
  | .turn pins => fw.polled pins
  | _ => fw.poll

/-- The keyboard state after an event. -/
def nextHid (sendErr : Nat → Int) (fw : Firmware κ) : Event κ → Except Fault Hid
  | .turn _ =>
    if fw.reporting then
      (callKeyReport sendErr fw.connMode fw.kbds.keystates fw.poll fw.hid).2
    else fw.hid
  | _ => fw.hid

/-- The pairing mode after an event. -/
def nextInPairingMode (fw : Firmware κ) : Event κ → Bool
  | .disconnected conn role _ =>
    (role = .peripheral && !isAnyDevConnected conn fw.connMode) || fw.inPairingMode
  | .securityChanged _ err => if err = 0 then false else fw.inPairingMode
  | .turn pins => if fw.answer pins = some true then false else fw.inPairingMode
  | _ => fw.inPairingMode

/-- The pairing requests after an event. -/
def nextPairing (fw : Firmware κ) : Event κ → Pairing κ
  | .passkeyConfirm conn passkey => (fw.pairing.authPasskeyConfirm conn passkey).1
  | .authCancel conn => fw.pairing.authCancel conn
  | .pairingFailed conn => (fw.pairing.pairingFailed conn).1
  | .pairingWork => fw.pairing.pairingProcess.1
  | .turn pins => (fw.answer pins).elim fw.pairing
      fun accept => (fw.pairing.numCompReply accept).1
  | _ => fw.pairing

/-- The host connections after an event, boot mode left out. -/
def nextConns (fw : Firmware κ) : Event κ → ConnModes
  | .connected conn err role hidsErr =>
    if err = 0 ∧ role = .peripheral ∧ hidsErr = 0 then addConn conn fw.connMode
    else fw.connMode
  | .disconnected conn role _ =>
    if role = .peripheral then removeConn conn fw.connMode else fw.connMode
  | _ => fw.connMode

/-- **One event, variable by variable.** -/
structure Stepped (sendErr : Nat → Int) (fw : Firmware κ) (e : Event κ) (fw' : Firmware κ) :
    Prop where
  kbds : fw'.kbds = fw.nextKbds e
  poll : fw'.poll = fw.nextPoll e
  hid : fw'.hid = fw.nextHid sendErr e
  inPairingMode : fw'.inPairingMode = fw.nextInPairingMode e
  pairing : fw'.pairing = fw.nextPairing e
  conns : ∀ i (hi : i < hidsMaxClientCount), fw'.connMode[i].conn = (fw.nextConns e)[i].conn

/-- A callback leaves the words of the right half alone. -/
theorem nextPoll_right {e : Event κ} (hturn : ∀ pins, e ≠ .turn pins) :
    (fw.nextPoll e).lastKeystateRight = fw.poll.lastKeystateRight ∧
      (fw.nextPoll e).rightKeystateChange = fw.poll.rightKeystateChange := by
  cases e with
  | turn pins => exact absurd rfl (hturn pins)
  | readResponse err data =>
    rw [nextPoll]
    unfold invoke
    split
    · unfold readKeystatesCb
      split <;> exact ⟨rfl, rfl⟩
    · exact ⟨rfl, rfl⟩
  | _ => exact ⟨rfl, rfl⟩

variable {sendErr fw}

/-! ## Events that may not happen -/

theorem notified_of_step {fw' : Firmware κ} {data : Data}
    (h : fw.step sendErr (.notified data) = some fw') :
    ∃ r, fw.kbds.notifyProcess data = some r ∧ fw' = { fw with kbds := r.1 } := by
  unfold step react at h
  cases hn : fw.kbds.notifyProcess data with
  | none => simp [hn] at h
  | some r =>
    simp only [hn, Option.map_some, Option.some.injEq] at h
    exact ⟨r, rfl, h.symm⟩

theorem readWork_of_step {fw' : Firmware κ} (h : fw.step sendErr .readWork = some fw') :
    fw.kbds.periodicRead.readWorkPending = true ∧
      fw' = { fw with kbds := fw.kbds.kbdsReadValueHandler.1 } := by
  obtain ⟨r, hr, rfl⟩ := Option.map_eq_some_iff.mp h
  obtain ⟨hpending, hr⟩ := Option.ite_none_right_eq_some.mp hr
  exact ⟨hpending, congrArg Prod.fst (Option.some.inj hr).symm⟩

theorem pairingWork_of_step {fw' : Firmware κ} (h : fw.step sendErr .pairingWork = some fw') :
    fw.pairing.workPending = true ∧
      fw' = { fw with pairing := fw.pairing.pairingProcess.1 } := by
  obtain ⟨r, hr, rfl⟩ := Option.map_eq_some_iff.mp h
  obtain ⟨hpending, hr⟩ := Option.ite_none_right_eq_some.mp hr
  exact ⟨hpending, congrArg Prod.fst (Option.some.inj hr).symm⟩

theorem stepped {fw' : Firmware κ} {e : Event κ} (h : fw.step sendErr e = some fw') :
    Stepped sendErr fw e fw' := by
  cases e with
  | connected conn err role hidsErr =>
    obtain ⟨defaultConn, isAdv, heq⟩ := fw.connected_frame conn err role hidsErr
    obtain rfl : fw.connected conn err role hidsErr = fw' := Option.some.inj h
    rw [heq]
    exact ⟨rfl, rfl, rfl, rfl, rfl, fun _ _ => rfl⟩
  | disconnected conn role advErr =>
    obtain ⟨defaultConn, isAdv, heq⟩ := fw.disconnected_frame conn role advErr
    obtain rfl : fw.disconnected conn role advErr = fw' := Option.some.inj h
    rw [heq]
    exact ⟨rfl, rfl, rfl, rfl, rfl, fun _ _ => rfl⟩
  | securityChanged conn err =>
    obtain rfl : fw.securityChanged conn err = fw' := Option.some.inj h
    rw [securityChanged_eq]
    exact ⟨rfl, rfl, rfl, rfl, rfl, fun _ _ => rfl⟩
  | pmEvt evt conn =>
    obtain ⟨connMode, heq, hconns⟩ := fw.hidsPmEvtHandler_frame evt conn
    obtain rfl : fw.hidsPmEvtHandler evt conn = fw' := Option.some.inj h
    rw [heq]
    exact ⟨rfl, rfl, rfl, rfl, rfl, hconns⟩
  | notified data =>
    obtain ⟨r, hr, rfl⟩ := notified_of_step h
    exact ⟨by simp [nextKbds, hr], rfl, rfl, rfl, rfl, fun _ _ => rfl⟩
  | readWork =>
    obtain ⟨-, rfl⟩ := readWork_of_step h
    exact ⟨rfl, rfl, rfl, rfl, rfl, fun _ _ => rfl⟩
  | pairingWork =>
    obtain ⟨-, rfl⟩ := pairingWork_of_step h
    exact ⟨rfl, rfl, rfl, rfl, rfl, fun _ _ => rfl⟩
  | turn pins =>
    obtain ⟨pressed, heq⟩ := fw.mainLoop_frame sendErr pins
    obtain rfl : (fw.mainLoop sendErr pins).1 = fw' := Option.some.inj h
    rw [heq]
    exact ⟨rfl, rfl, rfl, rfl, rfl, fun _ _ => rfl⟩
  | scanConnecting conn | discoveryCompleted dm se re | readResponse err data
  | periodicResponse err data | passkeyConfirm conn passkey | authCancel conn
  | pairingFailed conn =>
    obtain rfl := Option.some.inj h
    exact ⟨rfl, rfl, rfl, rfl, rfl, fun _ _ => rfl⟩

end BleKeyboard.Firmware
