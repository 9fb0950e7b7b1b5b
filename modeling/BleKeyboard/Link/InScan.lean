import BleKeyboard.Base.TwoParts
import BleKeyboard.Host.Subsystems
import BleKeyboard.Link.GpioScan

/-!
# Callbacks during a scan

For the firmware a turn of the main loop is one event. Most of it is `get_keystate`, 32 operations
on the pins, and callbacks of the stack run between any two of them. `inScan` is the main loop with
its scan in these pieces.

A turn that reports has done all that callbacks can see before it scans: what is left is to store
the words of the right half. A turn of pairing mode does nothing before its scan. After it, it looks
at the requests if an answer key goes down, whatever the mode is by then: that of a host that
connects while another one's pairing ends is answered outside of pairing mode.

`turns_atomic`: as long as no scan of pairing mode ends outside of it with an answer key going down,
every such run comes to a run of the firmware in which each turn is one event, at some point between
its waking up and the end of its scan, with the scan's own look at each switch.
-/

namespace BleKeyboard

open Base

universe u

variable {κ : Type u}

/-! ## The main loop in pieces -/

/-- The words after the assignment of what `get_keystate` returns, for the word that it was
called with. -/
def Poll.stored (lastButtonState word : Word) (p : Poll) : Poll :=
  { p with lastKeystateRight := word, rightKeystateChange := word ^^^ lastButtonState }

/-- Where the main loop is: in `k_sleep`, or in `get_keystate`, called in its first branch or in
the other. -/
inductive LoopPc where
  | asleep
  | reporting
  | pairing
  deriving DecidableEq, Repr

/-- The firmware with the stack calls of its pairing handlers, where its main loop is, the argument
of the call of `get_keystate`, and the scan. -/
structure InScan (κ : Type u) where
  fw : Firmware κ
  calls : List (PairingCall κ)
  pc : LoopPc
  lastButtonState : Word
  scan : MatrixScan

/-- A callback of the stack, the end of `k_sleep`, a switch that moves, or the next operation of
the scan. -/
inductive InScan.Event (κ : Type u) where
  | callback (e : Firmware.Event κ)
  | wake
  | toggle (i : Fin numOfRow) (j : Fin numOfCol)
  | op

/-- The event is a turn of the main loop. -/
def Firmware.Event.isTurn : Firmware.Event κ → Bool
  | .turn _ => true
  | _ => false

/-- `call_key_report` in the first branch of the main loop. -/
def Firmware.keyReported (sendErr : Nat → Int) (fw : Firmware κ) : Firmware κ :=
  let (poll, hid) := callKeyReport sendErr fw.connMode fw.kbds.keystates fw.poll fw.hid
  { fw with poll, hid }

namespace InScan

/-- The main loop until it calls `get_keystate`. -/
def wake (sendErr : Nat → Int) (s : InScan κ) : InScan κ :=
  if s.fw.reporting then
    let fw := s.fw.keyReported sendErr
    { s with fw, pc := .reporting, lastButtonState := fw.poll.lastKeystateRight }
  else if s.fw.inPairingMode then
    { s with pc := .pairing, lastButtonState := s.fw.poll.lastKeystateRight }
  else s

/-- The main loop from the end of `get_keystate` on. The scan is set for the next call. -/
def scanned (s : InScan κ) : InScan κ :=
  let fw := { s.fw with poll := s.fw.poll.stored s.lastButtonState s.scan.buttonState }
  let scan := s.scan.step .op
  match s.pc with
  | .asleep => s
  | .reporting => { s with fw, scan, pc := .asleep }
  | .pairing =>
    -- `in_pairing_mode` is not looked at again
    let (fw, calls) := fw.pairingMode fw.poll.lastKeystateRight fw.poll.rightKeystateChange
    { s with fw, scan, calls := s.calls ++ calls, pc := .asleep }

/-- One event. -/
def react (sendErr : Nat → Int) (s : InScan κ) : Event κ → Option (InScan κ)
  | .callback e =>
    if e.isTurn then none
    else (s.fw.react sendErr e).map fun r => { s with fw := r.1, calls := s.calls ++ r.2 }
  | .wake => if s.pc = .asleep then some (s.wake sendErr) else none
  | .toggle i j => some { s with scan := s.scan.step (.toggle i j) }
  | .op =>
    if s.pc = .asleep then none
    else
      match scanOps[s.scan.done]? with
      | some _ => some { s with scan := s.scan.step .op }
      | none => some s.scanned

/-- All switches are as given, and the main loop has yet to start. -/
def init (closed : Fin numOfRow → Fin numOfCol → Bool) : InScan κ :=
  ⟨.init, [], .asleep, 0, .init closed⟩

/-- The switches as the scan looked at them. -/
def look (looked : Fin numOfRow → Fin numOfCol → Bool) (s : InScan κ) :
    Event κ → Fin numOfRow → Fin numOfCol → Bool
  | .toggle i j => s.scan.look looked (.toggle i j)
  | .op => s.scan.look looked .op
  | _ => looked

end InScan

/-- The main loop with its scans in pieces, with each switch as it was last looked at. -/
def inScan (κ : Type u) (sendErr : Nat → Int) (closed : Fin numOfRow → Fin numOfCol → Bool) :
    Machine (InScan κ × (Fin numOfRow → Fin numOfCol → Bool)) (InScan.Event κ) :=
  (Machine.mk (.init closed) fun s e => InScan.react sendErr s e).recording (fun _ _ => false)
    InScan.look

/-! ## The turn in two parts -/

namespace Firmware

variable {sendErr : Nat → Int}

/-- One of the keys that answer a request goes down. -/
def answerKey (word : Word) (fw : Firmware κ) : Bool :=
  let buttons := word &&& (word ^^^ fw.poll.lastKeystateRight)
  decide (buttons &&& butAcceptPos ≠ 0) || decide (buttons &&& butRejectPos ≠ 0)

/-- What a turn does after its scan, if no answer key goes down. -/
def afterScan (phase : Phase) (pins : Pins) (fw : Firmware κ) : Firmware κ :=
  let change := readMatrix pins ^^^ fw.poll.lastKeystateRight
  { fw with
    poll := fw.poll.scanned pins
    pairingButtonPressed :=
      if phase = .waiting ∧ change &&& (butAcceptPos ||| butRejectPos) ≠ 0 then false
      else fw.pairingButtonPressed }

theorem pairingMode_of_not_answerKey {fw : Firmware κ} {pins : Pins}
    (hkey : fw.answerKey (readMatrix pins) = false) :
    ({ fw with poll := fw.poll.scanned pins } : Firmware κ).pairingMode
        (readMatrix pins) (readMatrix pins ^^^ fw.poll.lastKeystateRight)
      = (fw.afterScan .waiting pins, []) := by
  rw [answerKey, Bool.or_eq_false_iff, decide_eq_false_iff_not, decide_eq_false_iff_not] at hkey
  rw [pairingMode]
  simp only [if_neg hkey.1, if_neg hkey.2, ite_self]
  rw [afterScan]
  by_cases hchange :
      (readMatrix pins ^^^ fw.poll.lastKeystateRight) &&& (butAcceptPos ||| butRejectPos) ≠ 0
  · rw [if_pos (⟨rfl, hchange⟩ : Phase.waiting = Phase.waiting ∧ _), decide_eq_true hchange,
      Bool.and_true]
    cases hpressed : fw.pairingButtonPressed with
    | false => rw [if_neg Bool.false_ne_true, ← hpressed]
    | true => rw [if_pos rfl]
  · rw [decide_eq_false hchange, Bool.and_false, if_neg Bool.false_ne_true,
      if_neg (show ¬(Phase.waiting = Phase.waiting ∧ _) from fun hboth => hchange hboth.2)]

theorem invoke_scanned (reply : Option ReadReply) (pins : Pins) (p : Poll) :
    invoke reply (p.scanned pins) = (invoke reply p).scanned pins ∧
      (invoke reply p).lastKeystateRight = p.lastKeystateRight := by
  unfold invoke
  split
  · unfold readKeystatesCb
    split <;> exact ⟨rfl, rfl⟩
  · exact ⟨rfl, rfl⟩

section

variable (fw : Firmware κ) (phase : Phase) (pins : Pins)

theorem connected_afterScan (conn : Conn) (err : Byte) (role : Role) (hidsErr : Int) :
    (fw.afterScan phase pins).connected conn err role hidsErr
      = (fw.connected conn err role hidsErr).afterScan phase pins := by
  unfold connected
  by_cases herr : err ≠ 0
  · rw [if_pos herr, if_pos herr]
    by_cases hdef : some conn = fw.defaultConn
    · rw [if_pos hdef, if_pos (show some conn = (fw.afterScan phase pins).defaultConn from hdef)]
      rfl
    · rw [if_neg hdef,
        if_neg (show ¬some conn = (fw.afterScan phase pins).defaultConn from hdef)]
  · rw [if_neg herr, if_neg herr]
    cases role with
    | central => rfl
    | peripheral =>
      dsimp only
      split <;> rfl

theorem disconnected_afterScan (conn : Conn) (role : Role) (advErr : Int) :
    (fw.afterScan phase pins).disconnected conn role advErr
      = (fw.disconnected conn role advErr).afterScan phase pins := by
  unfold disconnected
  cases role with
  | central =>
    dsimp only
    by_cases hdef : fw.defaultConn ≠ some conn
    · rw [if_pos hdef, if_pos (show (fw.afterScan phase pins).defaultConn ≠ some conn from hdef)]
    · rw [if_neg hdef,
        if_neg (show ¬(fw.afterScan phase pins).defaultConn ≠ some conn from hdef)]
      rfl
  | peripheral => rfl

theorem hidsPmEvtHandler_afterScan (evt : PmEvt) (conn : Conn) :
    (fw.afterScan phase pins).hidsPmEvtHandler evt conn
      = (fw.hidsPmEvtHandler evt conn).afterScan phase pins := by
  unfold hidsPmEvtHandler
  rw [show (fw.afterScan phase pins).connMode = fw.connMode from rfl]
  cases (List.finRange hidsMaxClientCount).find? fun i => (fw.connMode.get i).conn = some conn
    <;> rfl

/-- What a turn does after its scan is no callback's business. -/
theorem react_afterScan {e : Event κ} (he : e.isTurn = false) :
    (fw.afterScan phase pins).react sendErr e
      = (fw.react sendErr e).map fun r => (r.1.afterScan phase pins, r.2) := by
  cases e with
  | turn pins => cases he
  | connected conn err role hidsErr =>
    rw [react, react, connected_afterScan, Option.map_some]
  | disconnected conn role advErr =>
    rw [react, react, disconnected_afterScan, Option.map_some]
  | securityChanged conn err =>
    rw [react, react, securityChanged, securityChanged]
    split <;> rfl
  | pmEvt evt conn =>
    rw [react, react, hidsPmEvtHandler_afterScan, Option.map_some]
  | notified data =>
    simp only [react]
    rw [show (fw.afterScan phase pins).kbds = fw.kbds from rfl]
    cases fw.kbds.notifyProcess data <;> rfl
  | readResponse err data =>
    obtain ⟨hscanned, hright⟩ := invoke_scanned (fw.kbds.readProcess err data).2 pins fw.poll
    simp only [react, Option.map_some, afterScan, hscanned, hright]
  | readWork =>
    rw [react, react]
    by_cases hpending : fw.kbds.periodicRead.readWorkPending = true
    · rw [if_pos hpending,
        if_pos (show (fw.afterScan phase pins).kbds.periodicRead.readWorkPending = true
          from hpending)]
      rfl
    · rw [if_neg hpending,
        if_neg (show ¬(fw.afterScan phase pins).kbds.periodicRead.readWorkPending = true
          from hpending)]
      rfl
  | pairingWork =>
    rw [react, react]
    by_cases hpending : fw.pairing.workPending = true
    · rw [if_pos hpending,
        if_pos (show (fw.afterScan phase pins).pairing.workPending = true from hpending)]
      rfl
    · rw [if_neg hpending,
        if_neg (show ¬(fw.afterScan phase pins).pairing.workPending = true from hpending)]
      rfl
  | _ => rfl

end

/-- A callback leaves the last word of the right half alone. -/
theorem poll_right_of_not_isTurn {fw : Firmware κ} {e : Event κ} {r : Firmware κ × _}
    (he : e.isTurn = false) (hr : fw.react sendErr e = some r) :
    r.1.poll.lastKeystateRight = fw.poll.lastKeystateRight := by
  have hstep : fw.step sendErr e = some r.1 := by
    rw [step, hr, Option.map_some]
  rw [(stepped hstep).poll]
  refine (fw.nextPoll_right ?_).1
  rintro pins rfl
  cases he

/-- A turn of the main loop in two parts: what it does before its scan, and what it does after. -/
def turnInParts (sendErr : Nat → Int) : TwoPart (calling κ sendErr) Pins where
  event := .turn
  between e := !e.isTurn
  start s :=
    if s.1.reporting then ((s.1.keyReported sendErr, s.2), .begun)
    else (s, if s.1.inPairingMode then .waiting else .idle)
  finish phase pins s := (s.1.afterScan phase pins, s.2)
  quiet pins s := !s.1.answerKey (readMatrix pins)
  start_begun s pins := by
    by_cases hrep : s.1.reporting = true
    · intro _
      rw [if_pos hrep, calling_step, react, mainLoop, if_pos hrep, Option.map_some, List.append_nil]
      rfl
    · rw [if_neg hrep]
      intro hbegun
      split at hbegun <;> cases hbegun
  start_waiting s pins := by
    by_cases hrep : s.1.reporting = true
    · rw [if_pos hrep]
      exact fun hnot => Phase.noConfusion hnot
    · by_cases hpair : s.1.inPairingMode = true
      · intro _ hquiet
        rw [calling_step, react, mainLoop, if_neg hrep, if_pos hpair, Option.map_some]
        have hkey : s.1.answerKey (readMatrix pins) = false := Bool.not_eq_true' _ ▸ hquiet
        refine (congrArg (fun r : Firmware κ × List (PairingCall κ) => some (r.1, s.2 ++ r.2))
          (pairingMode_of_not_answerKey hkey)).trans ?_
        rw [List.append_nil]
      · rw [if_neg hrep, if_neg hpair]
        exact fun hnot => Phase.noConfusion hnot
  start_other s := by
    by_cases hrep : s.1.reporting = true
    · rw [if_pos hrep]
      exact fun hnot => absurd rfl hnot
    · rw [if_neg hrep]
      exact fun _ => rfl
  finish_comm phase pins s e he := by
    rw [calling_step, calling_step, react_afterScan _ _ _ (Bool.not_eq_true' _ ▸ he)]
    cases s.1.react sendErr e <;> rfl
  quiet_step pins s e t he ht := by
    rw [calling_step] at ht
    obtain ⟨r, hr, rfl⟩ := Option.map_eq_some_iff.mp ht
    rw [answerKey, answerKey, poll_right_of_not_isTurn (Bool.not_eq_true' _ ▸ he) hr]

end Firmware

namespace InScan

variable {sendErr : Nat → Int} {closed : Fin numOfRow → Fin numOfCol → Bool}
  {s t : InScan κ × (Fin numOfRow → Fin numOfCol → Bool)} {e : Event κ}

/-- How far the turn is. -/
def phase (s : InScan κ) : Phase :=
  match s.pc with
  | .asleep => .idle
  | .reporting => .begun
  | .pairing => .waiting

/-- The firmware, and how far its turn is. -/
def inParts (s : InScan κ) : Firmware.Called κ × Phase := ((s.fw, s.calls), s.phase)

/-- What happens, for the firmware. -/
def pieces (s : InScan κ × (Fin numOfRow → Fin numOfCol → Bool)) :
    Event κ → List (Piece (Firmware.Event κ) Pins)
  | .callback e => [.other e]
  | .wake => [.start]
  | .toggle _ _ => []
  | .op => if scanOps[s.1.scan.done]? = none then [.finish (pinsAt s.2)] else []

/-- A scan of pairing mode ends in pairing mode, or has found no answer key going down. -/
def EndsInMode (s : InScan κ) : Event κ → Prop
  | .op => s.pc = .pairing → scanOps[s.scan.done]? = none →
    s.fw.inPairingMode = true ∨ s.fw.answerKey s.scan.buttonState = false
  | _ => True

instance (s : InScan κ) : DecidablePred s.EndsInMode
  | .op => inferInstanceAs (Decidable (_ → _ → _))
  | .callback _ | .wake | .toggle _ _ => .isTrue trivial

/-- The scan is about the switches as they were looked at, and the word that `get_keystate` was
called with is still the last one. -/
structure Sound (s : InScan κ × (Fin numOfRow → Fin numOfCol → Bool)) : Prop where
  scan : Scanned s.1.scan s.2
  argument : s.1.pc ≠ .asleep → s.1.lastButtonState = s.1.fw.poll.lastKeystateRight

theorem sound_init : Sound ((.init closed : InScan κ), fun _ _ => false) :=
  ⟨Scanned.init closed, fun hpc => absurd rfl hpc⟩

/-- After a scan the main loop sleeps, and the scan is set for the next one. -/
theorem scanned_frame {s : InScan κ} (hpc : s.pc ≠ .asleep) :
    s.scanned.pc = .asleep ∧ s.scanned.scan = s.scan.step .op := by
  unfold scanned
  cases hcase : s.pc with
  | asleep => exact absurd hcase hpc
  | reporting => exact ⟨rfl, rfl⟩
  | pairing => exact ⟨rfl, rfl⟩

/-- The end of a scan. -/
theorem Sound.scanned (sendErr : Nat → Int) (hs : Sound s) (hpc : s.1.pc ≠ .asleep)
    (hend : scanOps[s.1.scan.done]? = none)
    (hmode : s.1.pc = .pairing →
      s.1.fw.inPairingMode = true ∨ s.1.fw.answerKey s.1.scan.buttonState = false) :
    (Firmware.turnInParts sendErr).machine.step s.1.inParts (.finish (pinsAt s.2))
      = some s.1.scanned.inParts := by
  have hword := hs.scan.buttonState_eq hend
  have hstored : s.1.fw.poll.stored s.1.lastButtonState s.1.scan.buttonState
      = s.1.fw.poll.scanned (pinsAt s.2) := by
    rw [hs.argument hpc, hword]
    rfl
  unfold inParts phase InScan.scanned
  rw [hstored]
  cases hcase : s.1.pc with
  | asleep => exact absurd hcase hpc
  | reporting => rfl
  | pairing =>
    show (if (!s.1.fw.answerKey (readMatrix (pinsAt s.2))) = true then
        some ((s.1.fw.afterScan .waiting (pinsAt s.2), s.1.calls), Phase.idle)
      else ((Firmware.calling κ sendErr).step (s.1.fw, s.1.calls) (.turn (pinsAt s.2))).map
        fun c => (c, Phase.idle)) = _
    cases hkey : s.1.fw.answerKey (readMatrix (pinsAt s.2)) with
    | false =>
      refine Eq.symm ((congrArg (fun r : Firmware κ × List (PairingCall κ) =>
        some ((r.1, s.1.calls ++ r.2), Phase.idle))
        (Firmware.pairingMode_of_not_answerKey hkey)).trans ?_)
      rw [List.append_nil]
      rfl
    | true =>
      rw [hword, hkey] at hmode
      have hmode := (hmode hcase).resolve_right Bool.noConfusion
      have hrep : ¬s.1.fw.reporting = true := by
        rw [Firmware.reporting, hmode, Bool.not_true, Bool.and_false]
        exact Bool.false_ne_true
      rw [if_neg (show ¬(!true) = true from Bool.false_ne_true), Firmware.calling_step,
        Firmware.react, Firmware.mainLoop, if_neg hrep, if_pos hmode]
      rfl

/-- **One event** of the main loop in pieces. -/
theorem Sound.step (hs : Sound s) (hmode : s.1.EndsInMode e)
    (ht : (inScan κ sendErr closed).step s e = some t) : Sound t ∧
      (Firmware.turnInParts sendErr).machine.runFrom s.1.inParts (pieces s e)
        = some t.1.inParts := by
  obtain ⟨hreact, hlook⟩ := Machine.recording_step.mp ht
  obtain ⟨t, looked⟩ := t
  dsimp only at hreact hlook
  subst hlook
  cases e with
  | callback e =>
    obtain ⟨hturn, hcallback⟩ := Option.ite_none_left_eq_some.mp hreact
    obtain ⟨r, hr, rfl⟩ := Option.map_eq_some_iff.mp hcallback
    have hright := Firmware.poll_right_of_not_isTurn (Bool.eq_false_of_not_eq_true hturn) hr
    refine ⟨⟨hs.scan, fun hpc => (hs.argument hpc).trans hright.symm⟩, ?_⟩
    have hbetween : (!e.isTurn) = true := by
      rw [Bool.eq_false_of_not_eq_true hturn]
      rfl
    show ((if (!e.isTurn) = true then
      ((Firmware.calling κ sendErr).step (s.1.fw, s.1.calls) e).map fun c => (c, s.1.phase)
        else none).bind some) = _
    rw [if_pos hbetween, Firmware.calling_step, hr]
    rfl
  | wake =>
    obtain ⟨hpc, hwake⟩ := Option.ite_none_right_eq_some.mp hreact
    obtain rfl := Option.some.inj hwake
    have hidle : s.1.inParts = ((s.1.fw, s.1.calls), .idle) := by
      unfold inParts phase
      rw [hpc]
    rw [hidle]
    show _ ∧ some ((Firmware.turnInParts sendErr).start (s.1.fw, s.1.calls)) = _
    unfold wake Firmware.turnInParts
    by_cases hrep : s.1.fw.reporting = true
    · simp only [if_pos hrep]
      exact ⟨⟨hs.scan, fun _ => rfl⟩, rfl⟩
    · by_cases hpair : s.1.fw.inPairingMode = true
      · simp only [if_neg hrep, if_pos hpair]
        exact ⟨⟨hs.scan, fun _ => rfl⟩, rfl⟩
      · simp only [if_neg hrep, if_neg hpair]
        exact ⟨hs, congrArg some hidle.symm⟩
  | toggle i j =>
    obtain rfl := Option.some.inj hreact
    exact ⟨⟨hs.scan.step (.toggle i j), hs.argument⟩, rfl⟩
  | op =>
    obtain ⟨hpc, hop⟩ := Option.ite_none_left_eq_some.mp hreact
    cases hend : scanOps[s.1.scan.done]? with
    | some op =>
      rw [hend] at hop
      obtain rfl := Option.some.inj hop
      refine ⟨⟨hs.scan.step .op, hs.argument⟩, ?_⟩
      rw [pieces, hend, if_neg (Option.some_ne_none op)]
      rfl
    | none =>
      rw [hend] at hop
      obtain rfl := Option.some.inj hop
      obtain ⟨hasleep, hscan⟩ := scanned_frame hpc
      have hfinish := hs.scanned sendErr hpc hend fun hpair => hmode hpair hend
      refine ⟨⟨?_, fun hnot => absurd hasleep hnot⟩, ?_⟩
      · show Scanned s.1.scanned.scan _
        rw [hscan]
        exact hs.scan.step .op
      · rw [pieces, if_pos hend, Machine.runFrom_cons, hfinish]
        rfl

end InScan

/-- **Turns are atomic**: every run of the main loop with its scans in pieces, with callbacks and
moving switches between any two operations, that ends with the main loop asleep and in which no
scan of pairing mode ends outside of it with an answer key going down, comes to a run of the
firmware: the callbacks in their order, and each turn as one event between its waking up and the end
of its scan, for which each switch is as the scan looked at it. -/
theorem turns_atomic (sendErr : Nat → Int) (closed : Fin numOfRow → Fin numOfCol → Bool)
    {es : List (InScan.Event κ)} {t : InScan κ × (Fin numOfRow → Fin numOfCol → Bool)}
    (hmode : (inScan κ sendErr closed).Along (fun s e _ => s.1.EndsInMode e) es)
    (hrun : (inScan κ sendErr closed).run es = some t) (hasleep : t.1.pc = .asleep) :
    ∃ es', AtomicAs Firmware.Event.turn
        ((inScan κ sendErr closed).emitted InScan.pieces (inScan κ sendErr closed).init es) es' ∧
      (Firmware.calling κ sendErr).run es' = some (t.1.fw, t.1.calls) := by
  have hparts := Machine.runFrom_emitted_of_inv (I := InScan.Sound)
    (f := fun s : InScan κ × _ => s.1.inParts) InScan.sound_init hmode
    (fun _ _ _ hs hone ht => hs.step hone ht) hrun
  have hidle : t.1.inParts = ((t.1.fw, t.1.calls), .idle) := by
    unfold InScan.inParts InScan.phase
    rw [hasleep]
  rw [hidle] at hparts
  exact (Firmware.turnInParts sendErr).atomic hparts

/-- Position 7 of the right half is down. A host connects and is secured during a scan of pairing
mode; in the next scan position 13 goes down before its column is read, and the left half
notifies. -/
theorem turns_atomic_notified :
    let closed : Fin numOfRow → Fin numOfCol → Bool := fun i j => i == rowOf 7 && j == colOf 7
    let es : List (InScan.Event Nat) :=
      .wake :: List.replicate 12 .op
        ++ [.callback (.connected 1 0 .peripheral 0), .callback (.securityChanged 1 0)]
        ++ List.replicate 21 .op ++ .wake :: List.replicate 12 .op
        ++ [.callback (.notified (some [0x80, 0, 0, 0])), .toggle (rowOf 13) (colOf 13)]
        ++ List.replicate 21 .op
    ∃ t es', (inScan Nat (fun _ => 0) closed).run es = some t ∧
      t.1.fw.poll.lastKeystateRight = 0x2080 ∧
      AtomicAs Firmware.Event.turn ((inScan Nat (fun _ => 0) closed).emitted InScan.pieces
        (inScan Nat (fun _ => 0) closed).init es) es' ∧
      (Firmware.calling Nat fun _ => 0).run es' = some (t.1.fw, t.1.calls) := by
  intro closed es
  have hend : ((inScan Nat (fun _ => 0) closed).run es).map
      (fun t => (t.1.pc, t.1.fw.poll.lastKeystateRight)) = some (.asleep, 0x2080) := by
    decide +kernel
  obtain ⟨t, hrun, heq⟩ := Option.map_eq_some_iff.mp hend
  obtain ⟨hasleep, hword⟩ := Prod.mk.inj heq
  obtain ⟨es', hatomic, hcalling⟩ :=
    turns_atomic (fun _ => 0) closed (by decide +kernel) hrun hasleep
  exact ⟨t, es', hrun, hword, hatomic, hcalling⟩

-- not so if a scan ends outside of pairing mode: the accept key confirms a request that has come
-- after it, before its number is shown
example :
    let closed : Fin numOfRow → Fin numOfCol → Bool := fun i j => i == rowOf 3 && j == colOf 3
    let es : List (InScan.Event Nat) :=
      .wake :: List.replicate 12 .op
        ++ [.callback (.connected 1 0 .peripheral 0), .callback (.securityChanged 1 0),
          .callback (.connected 2 0 .peripheral 0), .callback (.passkeyConfirm 2 123456)]
        ++ List.replicate 21 .op
    ((inScan Nat (fun _ => 0) closed).run es).map (fun t => t.1.calls)
      = some [.connRef 2, .authPasskeyConfirm ⟨2, 123456⟩, .connUnref 2] := by
  decide +kernel

end BleKeyboard
