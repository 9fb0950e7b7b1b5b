import BleKeyboard.Firmware.ClientCalls
import BleKeyboard.Link.Agreement
import BleKeyboard.Link.Scan

/-!
# The split keyboard

The left half, the firmware of the HID keyboard and the link between them as one system. The
link comes up, is discovered and goes down again; while it is up, requests and messages travel
on it in order, and with it go those that are on their way. The left half is told of a link
that ends by a write of its CCC, and the client by `disconnected`.

- `split_run`: whatever the system does, its firmware makes a run of the firmware;
- `split_agrees`: the client has the word of the last left scan whenever the two are in step
  and nothing is on its way, over any number of links.
-/

namespace BleKeyboard

open Base

universe u

/-- `BT_GATT_CHRC_READ`. -/
def btGattChrcRead : Byte := 0x02

/-- What a discovery finds of `kbds_svc`: a characteristic that can be read and notifies, and its
CCC descriptor. The stack has assigned the handles. -/
def kbdsSvc (conn : Conn) (valueHandle cccHandle : BitVec 16) : KbdsClient.Discovery :=
  ⟨conn, true, some (btGattChrcRead ||| btGattChrcNotify), some valueHandle, some cccHandle⟩

/-- What goes to the left half for a request that the stack has accepted. -/
def GattRequest.onAir (subscribeErr readErr : Int) : GattRequest → List Request
  | .subscribe _ params => if subscribeErr = 0 then [.cccWrite params.value] else []
  | .read _ _ => if readErr = 0 then [.read] else []
  | .periodicRead _ _ | .unsubscribe _ _ => []

/-- The callback that a message runs at the client. -/
def Message.event {κ : Type u} : Message → Firmware.Event κ
  | .notification data => .notified (some data)
  | .readResponse data => .readResponse 0 (some data)

/-- The link between the halves. -/
inductive LeftLink where
  | down
  | connecting (conn : Conn)
  | up (conn : Conn) (discovered : Bool)
  deriving DecidableEq, Repr

namespace LeftLink

/-- The connection that carries the link, or will. -/
def conn : LeftLink → Option Conn
  | .down => none
  | .connecting conn | .up conn _ => some conn

/-- The client has found the service of the left half. -/
def discovered : LeftLink → Bool
  | .up _ discovered => discovered
  | .down | .connecting _ => false

/-- The link is up. -/
def isUp : LeftLink → Bool
  | .up _ _ => true
  | .down | .connecting _ => false

end LeftLink

/-- The two halves, the link, and what is on its way over it. -/
structure SplitKeyboard (κ : Type u) where
  left : LeftHalf
  fw : Firmware κ
  link : LeftLink
  toLeft : List Request
  toClient : List Message

/-- What can happen next. `other` is any event of the firmware that does not come from the
link. -/
inductive SplitEvent (κ : Type u) where
  | leftScan (pins : Pins) (gattErr : Int)
  | atLeft
  | atClient
  | scanConnecting (conn : Conn)
  | connected (conn : Conn) (err : Byte)
  | discoveryCompleted (valueHandle cccHandle : BitVec 16) (subscribeErr readErr : Int)
  | readFailed (err : Byte)
  | disconnected
  | other (e : Firmware.Event κ)

/-- An event that does not come from the link to the left half. -/
def Firmware.FromElsewhere {κ : Type u} (fw : Firmware κ) : Firmware.Event κ → Prop
  | .connected conn _ role _ => role = .peripheral ∧ fw.defaultConn ≠ some conn
  | .disconnected _ role _ => role = .peripheral
  | .scanConnecting _ | .discoveryCompleted _ _ _ | .notified _ | .readResponse _ _
  | .periodicResponse _ _ => False
  | .securityChanged _ _ | .pmEvt _ _ | .readWork | .passkeyConfirm _ _ | .authCancel _
  | .pairingFailed _ | .pairingWork | .turn _ => True

instance {κ : Type u} (fw : Firmware κ) : DecidablePred fw.FromElsewhere
  | .connected _ _ _ _ => inferInstanceAs (Decidable (_ ∧ _))
  | .disconnected _ _ _ => inferInstanceAs (Decidable (_ = _))
  | .scanConnecting _ | .discoveryCompleted _ _ _ | .notified _ | .readResponse _ _
  | .periodicResponse _ _ => .isFalse id
  | .securityChanged _ _ | .pmEvt _ _ | .readWork | .passkeyConfirm _ _ | .authCancel _
  | .pairingFailed _ | .pairingWork | .turn _ => .isTrue trivial

namespace SplitKeyboard

variable {κ : Type u}

/-- The halves and their messages, without the rest of the firmware. -/
def halves (s : SplitKeyboard κ) : Halves := ⟨s.left, s.fw.kbds, s.toLeft, s.toClient⟩

/-- The event can happen. A read fails after its request or its response went with a link. -/
def Enabled (s : SplitKeyboard κ) : SplitEvent κ → Prop
  | .leftScan _ _ => True
  | .atLeft => s.toLeft ≠ []
  | .atClient => s.toClient ≠ []
  | .scanConnecting _ => s.link = .down
  | .connected conn _ => s.link = .connecting conn
  | .discoveryCompleted _ _ _ _ => s.link.isUp = true ∧ s.link.discovered = false
  | .readFailed err => err ≠ 0 ∧ s.halves.reads = 0
  | .disconnected => s.link.isUp = true
  | .other e => s.fw.FromElsewhere e

instance (s : SplitKeyboard κ) : DecidablePred s.Enabled
  | .leftScan _ _ => .isTrue trivial
  | .atLeft | .atClient => inferInstanceAs (Decidable (_ ≠ _))
  | .scanConnecting _ | .connected _ _ | .disconnected => inferInstanceAs (Decidable (_ = _))
  | .discoveryCompleted _ _ _ _ | .readFailed _ => inferInstanceAs (Decidable (_ ∧ _))
  | .other e => inferInstanceAs (Decidable (s.fw.FromElsewhere e))

/-- The callbacks of the firmware that the event runs. When a link goes down the stack also calls
`notify_process` without data for a subscription over it; that read past the end is left out. -/
def callbacks (s : SplitKeyboard κ) : SplitEvent κ → List (Firmware.Event κ)
  | .leftScan _ _ | .atLeft => []
  | .atClient => (s.toClient.head?.map Message.event).toList
  | .scanConnecting conn => [.scanConnecting conn]
  | .connected conn err => [.connected conn err .central 0]
  | .discoveryCompleted valueHandle cccHandle subscribeErr readErr =>
    s.link.conn.toList.map fun conn =>
      .discoveryCompleted (kbdsSvc conn valueHandle cccHandle) subscribeErr readErr
  | .readFailed err => [.readResponse err none]
  | .disconnected => s.link.conn.toList.map fun conn => .disconnected conn .central 0
  | .other e => [e]

/-- What the event does outside the firmware. -/
def moved (s : SplitKeyboard κ) : SplitEvent κ → SplitKeyboard κ
  | .leftScan pins gattErr =>
    let (left, data) := s.left.getKeystate pins gattErr
    { s with left, toClient := s.toClient ++ (data.map Message.notification).toList }
  | .atLeft =>
    match s.toLeft with
    | [] => s
    | .cccWrite value :: toLeft => { s with left := s.left.cccCfgChanged value, toLeft }
    | .read :: toLeft =>
      let (left, data) := s.left.readButton
      { s with left, toLeft, toClient := s.toClient ++ [.readResponse data] }
  | .atClient => { s with toClient := s.toClient.tail }
  | .scanConnecting conn => { s with link := .connecting conn }
  | .connected conn err => { s with link := if err = 0 then .up conn false else .down }
  | .discoveryCompleted valueHandle cccHandle subscribeErr readErr =>
    match s.link.conn with
    | none => s
    | some conn =>
      let requests := (discoveryCompletedCb (kbdsSvc conn valueHandle cccHandle) subscribeErr
        readErr s.fw.kbds).2
      { s with
        link := .up conn true
        toLeft := s.toLeft ++ requests.flatMap (GattRequest.onAir subscribeErr readErr) }
  -- the stack of the left half turns notifications off when the client is gone
  | .disconnected =>
    { s with left := s.left.cccCfgChanged 0, link := .down, toLeft := [], toClient := [] }
  | .readFailed _ | .other _ => s

/-- One event. -/
def step (sendErr : Nat → Int) (s : SplitKeyboard κ) (e : SplitEvent κ) :
    Option (SplitKeyboard κ) :=
  if s.Enabled e then
    ((firmware κ sendErr).runFrom s.fw (s.callbacks e)).map fun fw => { s.moved e with fw }
  else none

/-- Both halves have started; `buttonState` is in the uninitialised variable of the left one. -/
def init (buttonState : Word) : SplitKeyboard κ := ⟨.init buttonState, .init, .down, [], []⟩

/-- Whether the halves are in step after an event: as in `InTouch.next`, and a link that ends or
is discovered anew takes them out of step. -/
def nextInStep (inStep : Bool) (s : SplitKeyboard κ) : SplitEvent κ → Bool
  | .leftScan pins gattErr => (InTouch.next ⟨false, inStep⟩ s.halves (.scan pins gattErr)).inStep
  | .atLeft => (InTouch.next ⟨false, inStep⟩ s.halves .atLeft).inStep
  | .discoveryCompleted _ _ _ _ | .disconnected => false
  | _ => inStep

end SplitKeyboard

/-- The split keyboard, with whether the halves are in step on the side. -/
def splitKeyboard (κ : Type u) (sendErr : Nat → Int) (buttonState : Word) :
    Machine (SplitKeyboard κ × Bool) (SplitEvent κ) :=
  (Machine.mk (.init buttonState) (SplitKeyboard.step sendErr)).recording false
    SplitKeyboard.nextInStep

/-! ## Single callbacks -/

namespace Firmware

variable {κ : Type u} {sendErr : Nat → Int} {fw fw' : Firmware κ}

/-- Other events leave the client and `default_conn` alone, unless a periodic read is due. -/
theorem fromElsewhere_frame {e : Event κ} (hfrom : fw.FromElsewhere e)
    (hidle : fw.kbds.periodicRead.readWorkPending = false) (h : fw.step sendErr e = some fw') :
    fw'.kbds = fw.kbds ∧ fw'.defaultConn = fw.defaultConn := by
  have hdef := step_defaultConn (c := ⟨false, fw.defaultConn, 0⟩) rfl h
  rw [(stepped h).kbds, ← hdef]
  cases e with
  | connected conn err role hidsErr =>
    have hne : ¬some conn = fw.defaultConn := fun heq => hfrom.2 heq.symm
    refine ⟨rfl, ?_⟩
    show (Central.connected conn err ⟨false, fw.defaultConn, 0⟩).defaultConn = _
    unfold Central.connected
    rw [if_neg hne, ite_self]
  | disconnected conn role advErr =>
    obtain rfl : role = .peripheral := hfrom
    refine ⟨?_, rfl⟩
    rw [nextKbds, if_neg]
    rintro ⟨hrole, -⟩
    cases hrole
  | readWork =>
    have hpending := (readWork_of_step h).1
    rw [hidle] at hpending
    cases hpending
  | scanConnecting _ | discoveryCompleted _ _ _ | notified _ | readResponse _ _
  | periodicResponse _ _ => exact hfrom.elim
  | _ => exact ⟨rfl, rfl⟩

/-- The callback of a message does to the client what the message does. -/
theorem step_message {m : Message} (h : fw.step sendErr m.event = some fw') :
    m.receive fw.kbds = some fw'.kbds ∧ fw'.defaultConn = fw.defaultConn := by
  cases m with
  | notification data =>
    obtain ⟨r, hr, rfl⟩ := notified_of_step h
    refine ⟨?_, rfl⟩
    rw [Message.receive, hr]
    rfl
  | readResponse data =>
    obtain rfl := Option.some.inj h
    exact ⟨rfl, rfl⟩

end Firmware

/-- No callback of the link leaves a periodic read pending. -/
theorem Message.receive_readWorkPending {kbds kbds' : KbdsClient} {m : Message}
    (h : m.receive kbds = some kbds') :
    kbds'.periodicRead.readWorkPending = kbds.periodicRead.readWorkPending := by
  cases m with
  | notification data =>
    have hcalled : kbds.Called (.notifyProcess (some data)) kbds' := KbdsClient.called h
    exact hcalled.readWork
  | readResponse data =>
    have hcalled : kbds.Called (.readProcess 0 (some data)) kbds' := KbdsClient.called h
    exact hcalled.readWork

/-- The parameters of the subscription to the left half. -/
def kbdsSubscription (valueHandle cccHandle : BitVec 16) : NotifyParams :=
  ⟨btGattCccNotify, valueHandle, cccHandle, true⟩

/-- The discovery of the left half subscribes, and reads once. -/
theorem discoveryCompletedCb_kbdsSvc (conn : Conn) (valueHandle cccHandle : BitVec 16)
    (subscribeErr readErr : Int) (kbds : KbdsClient) :
    discoveryCompletedCb (kbdsSvc conn valueHandle cccHandle) subscribeErr readErr kbds =
      ({ conn := some conn
         notifyParams := kbdsSubscription valueHandle cccHandle
         readHandle := valueHandle
         periodicRead := { kbds.periodicRead with readWorkPending := false }
         notifyCb := if subscribeErr = 0 then some .notifyKeystatesCb else none
         readCb := if readErr = 0 then some .readKeystatesCb else none
         valHandle := valueHandle
         cccHandle
         keystates := btKbdsValInvalid
         properties := btGattChrcRead ||| btGattChrcNotify
         notify := true },
        [.subscribe (some conn) (kbdsSubscription valueHandle cccHandle),
          .read (some conn) valueHandle]) := by
  have hnotify : ¬(btGattChrcRead ||| btGattChrcNotify) &&& btGattChrcNotify = 0#8 := by decide
  by_cases hsubscribe : subscribeErr = 0 <;> by_cases hread : readErr = 0 <;>
    simp [discoveryCompletedCb, kbdsSvc, kbdsSubscription, KbdsClient.handlesAssign,
      KbdsClient.kbdsReinit, KbdsClient.subscribeKeystates, KbdsClient.readKeystates, hnotify,
      hsubscribe, hread]

/-- A read that fails only clears its callback. -/
theorem KbdsClient.readProcess_failed {err : Byte} (herr : err ≠ 0) (data : Data)
    (kbds : KbdsClient) : (kbds.readProcess err data).1 = { kbds with readCb := none } := by
  rw [readProcess]
  cases kbds.readCb with
  | none => rfl
  | some cb => exact congrArg Prod.fst (if_pos herr)

/-- It leaves the words of the poll alone. -/
theorem invoke_failed {err : Byte} (herr : err ≠ 0) (data : Data) (kbds : KbdsClient) (p : Poll) :
    invoke (kbds.readProcess err data).2 p = p := by
  rw [KbdsClient.readProcess_reply]
  rcases kbds.readCb with _ | _ | id
  · rfl
  · have hfailed : (readResult err data).2 ≠ 0 := fun hzero =>
      herr ((readResult_eq_zero_iff err data).mp hzero).1
    exact if_pos hfailed
  · rfl

theorem Poll.reported_of_ne {keystates : Word} (hne : keystates ≠ noKeystates) (p : Poll) :
    (p.reported keystates).lastKeystateLeft = keystates := if_pos hne

theorem Poll.reported_noKeystates (p : Poll) :
    (p.reported noKeystates).lastKeystateLeft = p.lastKeystateLeft := by
  simp [Poll.reported]

/-! ## The invariant -/

namespace SplitKeyboard

variable {κ : Type u} {sendErr : Nat → Int} {s t : SplitKeyboard κ} {inStep : Bool}

theorem step_iff {e : SplitEvent κ} : s.step sendErr e = some t ↔ s.Enabled e ∧
    ∃ fw, (firmware κ sendErr).runFrom s.fw (s.callbacks e) = some fw ∧
      { s.moved e with fw } = t := by
  rw [step, Option.ite_none_right_eq_some, Option.map_eq_some_iff]

/-- The callback of an event that runs one. -/
theorem runFrom_singleton {fw fw' : Firmware κ} {e : Firmware.Event κ}
    (h : (firmware κ sendErr).runFrom fw [e] = some fw') : fw.step sendErr e = some fw' := by
  obtain ⟨next, hnext, hrest⟩ := Option.bind_eq_some_iff.mp h
  exact Option.some.inj hrest ▸ hnext

/-- The words of the poll after a turn that reports. -/
theorem poll_turn {pins : Pins} (h : s.step sendErr (.other (.turn pins)) = some t)
    (hrep : s.fw.reporting = true) :
    t.fw.poll = (s.fw.poll.reported s.fw.kbds.keystates).scanned pins := by
  obtain ⟨-, fw, hfw, heq⟩ := step_iff.mp h
  rw [← heq, (Firmware.stepped (runFrom_singleton hfw)).poll]
  exact if_pos hrep

/-- The halves are those of `Agreement`; before the discovery of a link nothing is on its way;
and the firmware knows of the link, and of no key of a left half that is not there. -/
structure Linked (s : SplitKeyboard κ) (inStep : Bool) : Prop where
  halves : HalvesInv (s.halves, ⟨false, inStep⟩)
  fresh : s.link.discovered = false →
    s.toLeft = [] ∧ s.toClient = [] ∧ s.left.notifyEnabled = false ∧ inStep = false
  idle : s.fw.kbds.periodicRead.readWorkPending = false
  defaultConn : s.fw.defaultConn = s.link.conn
  gone : s.link.discovered = false → s.fw.kbds.keystates = 0 ∨
    s.fw.kbds.keystates = btKbdsValInvalid ∧ s.fw.poll.lastKeystateLeft = 0

theorem linked_init (buttonState : Word) :
    Linked (init buttonState : SplitKeyboard κ) false where
  halves := ⟨Nat.zero_le _, fun _ => rfl, fun h => absurd h Bool.false_ne_true⟩
  fresh _ := ⟨rfl, rfl, rfl, rfl⟩
  idle := rfl
  defaultConn := rfl
  gone _ := .inr ⟨rfl, rfl⟩

/-- Nothing is in flight, and the halves are not in step. -/
theorem halvesInv_quiet {s : SplitKeyboard κ} (hleft : s.toLeft = []) (hclient : s.toClient = []) :
    HalvesInv (s.halves, ⟨false, false⟩) := by
  have hreads : s.halves.reads = 0 := by
    rw [Halves.reads]
    show s.toLeft.countP _ + s.toClient.countP _ = 0
    rw [hleft, hclient]
    rfl
  exact ⟨hreads.trans_le (Nat.zero_le _), fun _ => hreads, fun h => absurd h Bool.false_ne_true⟩

namespace Linked

theorem leftScan (hs : Linked s inStep) (pins : Pins) (gattErr : Int) :
    Linked (s.moved (.leftScan pins gattErr))
      (nextInStep inStep s (.leftScan pins gattErr)) := by
  have hhalves := hs.halves.scan pins gattErr rfl
  refine ⟨⟨hhalves.oneRead, hhalves.readCb, hhalves.settles⟩, ?_, hs.idle, hs.defaultConn, hs.gone⟩
  intro hdiscovered
  obtain ⟨htoLeft, htoClient, hnotify, hout⟩ := hs.fresh hdiscovered
  have hnot : ¬s.left.Notifies pins gattErr := fun hn =>
    Bool.false_ne_true (hnotify.symm.trans hn.2.1)
  refine ⟨htoLeft, ?_, ?_, ?_⟩
  · show s.toClient ++ ((s.left.getKeystate pins gattErr).2.map Message.notification).toList = []
    rw [LeftHalf.getKeystate_eq, if_neg hnot, htoClient]
    rfl
  · show (s.left.getKeystate pins gattErr).1.notifyEnabled = false
    rw [LeftHalf.getKeystate_eq]
    exact hnotify
  · show (decide (s.left.Notifies pins gattErr) ||
      inStep && decide (readMatrix pins = s.left.appKeystate)) = false
    rw [decide_eq_false hnot, hout]
    rfl

theorem atLeft (hs : Linked s inStep) (hne : s.toLeft ≠ []) :
    Linked (s.moved .atLeft) (nextInStep inStep s .atLeft) := by
  have hdiscovered : ¬s.link.discovered = false := fun h => hne (hs.fresh h).1
  cases hq : s.toLeft with
  | nil => exact absurd hq hne
  | cons request toLeft =>
    cases request with
    | cccWrite value =>
      have hmoved : s.moved .atLeft
          = { s with left := s.left.cccCfgChanged value, toLeft } := by
        rw [moved, hq]
      have hhalves := hs.halves.atLeft_cccWrite (s := (s.halves, _)) hq
      rw [hmoved]
      exact ⟨⟨hhalves.oneRead, hhalves.readCb, hhalves.settles⟩,
        fun h => absurd h hdiscovered, hs.idle, hs.defaultConn, fun h => absurd h hdiscovered⟩
    | read =>
      have hmoved : s.moved .atLeft = { s with
          left := s.left.readButton.1, toLeft
          toClient := s.toClient ++ [.readResponse s.left.readButton.2] } := by
        rw [moved, hq]
      have hhalves := hs.halves.atLeft_read (s := (s.halves, _)) hq
      rw [hmoved]
      exact ⟨⟨hhalves.oneRead, hhalves.readCb, hhalves.settles⟩,
        fun h => absurd h hdiscovered, hs.idle, hs.defaultConn, fun h => absurd h hdiscovered⟩

theorem atClient (hs : Linked s inStep) {m : Message} {toClient : List Message}
    (hq : s.toClient = m :: toClient) {fw : Firmware κ}
    (hfw : s.fw.step sendErr m.event = some fw) :
    Linked { s with fw, toClient } inStep := by
  have hdiscovered : ¬s.link.discovered = false := by
    intro h
    rw [(hs.fresh h).2.1] at hq
    cases hq
  obtain ⟨hreceive, hdef⟩ := Firmware.step_message hfw
  have hstep : s.halves.step .atClient = some ⟨s.left, fw.kbds, s.toLeft, toClient⟩ := by
    unfold Halves.step
    dsimp only [SplitKeyboard.halves]
    rw [hq]
    dsimp only
    rw [hreceive]
    rfl
  have hhalves := hs.halves.atClient hstep
  exact ⟨⟨hhalves.oneRead, hhalves.readCb, hhalves.settles⟩, fun h => absurd h hdiscovered,
    (Message.receive_readWorkPending hreceive).trans hs.idle, hdef.trans hs.defaultConn,
    fun h => absurd h hdiscovered⟩

/-- The stack has a connection to the left half, or will have. -/
theorem scanConnecting (hs : Linked s inStep) (hdown : s.link = .down) (conn : Conn)
    {fw : Firmware κ} (hfw : s.fw.step sendErr (.scanConnecting conn) = some fw) :
    Linked { s with link := .connecting conn, fw } inStep := by
  obtain rfl := Option.some.inj hfw
  have hdiscovered : s.link.discovered = false := by
    rw [hdown]
    rfl
  exact ⟨⟨hs.halves.oneRead, hs.halves.readCb, hs.halves.settles⟩, fun _ => hs.fresh hdiscovered,
    hs.idle, rfl, fun _ => hs.gone hdiscovered⟩

theorem connected (hs : Linked s inStep) {conn : Conn} (hlink : s.link = .connecting conn)
    (err : Byte) {fw : Firmware κ}
    (hfw : s.fw.step sendErr (.connected conn err .central 0) = some fw) :
    Linked { s with link := if err = 0 then .up conn false else .down, fw } inStep := by
  have hdiscovered : s.link.discovered = false := by
    rw [hlink]
    rfl
  have hdef : s.fw.defaultConn = some conn := by
    rw [hs.defaultConn, hlink]
    rfl
  obtain rfl : s.fw.connected conn err .central 0 = fw := Option.some.inj hfw
  unfold Firmware.connected
  by_cases herr : err = 0
  · rw [if_neg (not_not.mpr herr), if_pos herr]
    exact ⟨⟨hs.halves.oneRead, hs.halves.readCb, hs.halves.settles⟩, fun _ => hs.fresh hdiscovered,
      hs.idle, hdef, fun _ => hs.gone hdiscovered⟩
  · rw [if_pos herr, if_neg herr, if_pos hdef.symm]
    exact ⟨⟨hs.halves.oneRead, hs.halves.readCb, hs.halves.settles⟩, fun _ => hs.fresh hdiscovered,
      hs.idle, rfl, fun _ => hs.gone hdiscovered⟩

/-- The discovery starts the client anew, and asks for a word at once. -/
theorem discoveryCompleted (hs : Linked s inStep) {conn : Conn}
    (hlink : s.link = .up conn false) (valueHandle cccHandle : BitVec 16)
    (subscribeErr readErr : Int) {fw : Firmware κ}
    (hfw : s.fw.step sendErr (.discoveryCompleted (kbdsSvc conn valueHandle cccHandle) subscribeErr
      readErr) = some fw) :
    Linked { s.moved (.discoveryCompleted valueHandle cccHandle subscribeErr readErr) with fw }
      false := by
  obtain ⟨htoLeft, htoClient, hnotify, -⟩ := hs.fresh (by rw [hlink]; rfl)
  have hmoved : s.moved (.discoveryCompleted valueHandle cccHandle subscribeErr readErr)
      = { s with
          link := .up conn true
          toLeft := (if subscribeErr = 0 then [.cccWrite btGattCccNotify] else []) ++
            if readErr = 0 then [.read] else [] } := by
    simp only [moved, hlink, LeftLink.conn, discoveryCompletedCb_kbdsSvc, htoLeft]
    simp [GattRequest.onAir, kbdsSubscription]
  obtain rfl := Option.some.inj hfw
  rw [hmoved, discoveryCompletedCb_kbdsSvc]
  have hreads : ((if subscribeErr = 0 then [Request.cccWrite btGattCccNotify] else []) ++
        if readErr = 0 then [Request.read] else []).countP (· = Request.read)
      + s.toClient.countP Message.isResponse = if readErr = 0 then 1 else 0 := by
    rw [htoClient]
    split <;> split <;> rfl
  refine ⟨⟨?_, ?_, fun h => absurd h Bool.false_ne_true⟩, fun h => absurd h.symm Bool.false_ne_true,
    rfl, ?_, fun h => absurd h.symm Bool.false_ne_true⟩
  · refine hreads.trans_le ?_
    split <;> decide
  · -- the client waits for the read, if the stack has taken it
    intro hcb
    refine hreads.trans (if_neg fun hread => ?_)
    have hcb : (if readErr = 0 then some ReadCb.readKeystatesCb else none) = none := hcb
    rw [if_pos hread] at hcb
    cases hcb
  · show s.fw.defaultConn = some conn
    rw [hs.defaultConn, hlink]
    rfl

theorem readFailed (hs : Linked s inStep) {err : Byte} (herr : err ≠ 0)
    (hreads : s.halves.reads = 0) {fw : Firmware κ}
    (hfw : s.fw.step sendErr (.readResponse err none) = some fw) :
    Linked { s with fw } inStep := by
  have heq : fw = { s.fw with kbds := { s.fw.kbds with readCb := none } } := by
    rw [← Option.some.inj hfw]
    show { s.fw with
      kbds := (s.fw.kbds.readProcess err none).1
      poll := invoke (s.fw.kbds.readProcess err none).2 s.fw.poll } = _
    rw [invoke_failed herr, KbdsClient.readProcess_failed herr]
  subst heq
  refine ⟨⟨hs.halves.oneRead, fun _ => hreads, fun hin => ?_⟩, hs.fresh, hs.idle, hs.defaultConn,
    hs.gone⟩
  -- what is on its way answers no read
  have hno := HalvesInv.no_response (s := (s.halves, ⟨false, inStep⟩))
    (hreads.trans_le (Nat.zero_le _))
  exact (settled_of_no_response hno s.fw.kbds { s.fw.kbds with readCb := none } rfl).1.trans
    (hs.halves.settles hin)

theorem disconnected (hs : Linked s inStep) {conn : Conn} {discovered : Bool}
    (hlink : s.link = .up conn discovered) {fw : Firmware κ}
    (hfw : s.fw.step sendErr (.disconnected conn .central 0) = some fw) :
    Linked { s.moved .disconnected with fw } false := by
  have hdef : s.fw.defaultConn = some conn := by
    rw [hs.defaultConn, hlink]
    rfl
  obtain rfl : s.fw.disconnected conn .central 0 = fw := Option.some.inj hfw
  rw [Firmware.disconnected]
  dsimp only
  rw [if_neg (not_not.mpr hdef)]
  exact ⟨halvesInv_quiet rfl rfl, fun _ => ⟨rfl, rfl, rfl, rfl⟩, hs.idle, rfl, fun _ => .inl rfl⟩

/-- What comes from elsewhere leaves the client alone; a turn that reports while the left half is
not there lets go of its switches. -/
theorem other (hs : Linked s inStep) {e : Firmware.Event κ} (hfrom : s.fw.FromElsewhere e)
    {fw : Firmware κ} (hfw : s.fw.step sendErr e = some fw) :
    Linked { s with fw } inStep := by
  obtain ⟨hkbds, hdef⟩ := Firmware.fromElsewhere_frame hfrom hs.idle hfw
  have hhalves : SplitKeyboard.halves { s with fw } = s.halves := by
    show (⟨s.left, fw.kbds, s.toLeft, s.toClient⟩ : Halves) = _
    rw [hkbds]
    rfl
  refine ⟨hhalves.symm ▸ hs.halves, hs.fresh, ?_, hdef.trans hs.defaultConn, ?_⟩
  · show fw.kbds.periodicRead.readWorkPending = false
    rw [hkbds]
    exact hs.idle
  · intro hdiscovered
    show fw.kbds.keystates = 0 ∨ fw.kbds.keystates = btKbdsValInvalid ∧
      fw.poll.lastKeystateLeft = 0
    rw [hkbds, (Firmware.stepped hfw).poll]
    refine (hs.gone hdiscovered).imp_right ?_
    rintro ⟨hinvalid, hzero⟩
    refine ⟨hinvalid, ?_⟩
    cases e with
    | turn pins =>
      -- the sentinel: the left word stays
      rw [Firmware.nextPoll, Firmware.polled]
      split
      · rw [hinvalid]
        exact (Poll.reported_noKeystates s.fw.poll).trans hzero
      · split <;> exact hzero
    | readResponse _ _ => exact hfrom.elim
    | _ => exact hzero

/-- **One event** keeps the invariant. -/
theorem step (hs : Linked s inStep) {e : SplitEvent κ} (h : s.step sendErr e = some t) :
    Linked t (nextInStep inStep s e) := by
  obtain ⟨henabled, fw, hfw, rfl⟩ := step_iff.mp h
  cases e with
  | leftScan pins gattErr =>
    obtain rfl := Option.some.inj hfw
    exact hs.leftScan pins gattErr
  | atLeft =>
    obtain rfl := Option.some.inj hfw
    have hfw : (s.moved .atLeft).fw = s.fw := by
      unfold moved
      dsimp only
      split <;> rfl
    have hlinked := hs.atLeft henabled
    rw [← hfw]
    exact hlinked
  | atClient =>
    obtain ⟨m, toClient, hq⟩ := List.exists_cons_of_ne_nil henabled
    rw [callbacks, hq] at hfw
    show Linked { s with fw, toClient := s.toClient.tail } inStep
    rw [hq]
    exact hs.atClient hq (runFrom_singleton hfw)
  | scanConnecting conn => exact hs.scanConnecting henabled conn (runFrom_singleton hfw)
  | connected conn err => exact hs.connected henabled err (runFrom_singleton hfw)
  | discoveryCompleted valueHandle cccHandle subscribeErr readErr =>
    obtain ⟨hup, hdiscovered⟩ := henabled
    cases hlink : s.link with
    | down | connecting conn =>
      rw [hlink] at hup
      cases hup
    | up conn discovered =>
      obtain rfl : discovered = false := by
        rw [hlink] at hdiscovered
        exact hdiscovered
      rw [callbacks, hlink] at hfw
      exact hs.discoveryCompleted hlink valueHandle cccHandle subscribeErr readErr
        (runFrom_singleton hfw)
  | readFailed err => exact hs.readFailed henabled.1 henabled.2 (runFrom_singleton hfw)
  | disconnected =>
    cases hlink : s.link with
    | down | connecting conn =>
      rw [Enabled, hlink] at henabled
      cases henabled
    | up conn discovered =>
      rw [callbacks, hlink] at hfw
      exact hs.disconnected hlink (runFrom_singleton hfw)
  | other e => exact hs.other henabled (runFrom_singleton hfw)

/-- A left half that is not there has no switch down. -/
theorem reported_gone (hs : Linked s inStep) (hdiscovered : s.link.discovered = false) :
    (s.fw.poll.reported s.fw.kbds.keystates).lastKeystateLeft = 0 := by
  rcases hs.gone hdiscovered with hzero | ⟨hinvalid, hzero⟩
  · rw [hzero, Poll.reported_of_ne (by decide)]
  · rw [hinvalid]
    exact (Poll.reported_noKeystates _).trans hzero

end Linked

end SplitKeyboard

/-! ## Runs -/

section

variable {κ : Type u} (sendErr : Nat → Int) (buttonState : Word)

theorem split_step {sendErr : Nat → Int} {buttonState : Word} {s t : SplitKeyboard κ × Bool}
    {e : SplitEvent κ} (h : (splitKeyboard κ sendErr buttonState).step s e = some t) :
    s.1.step sendErr e = some t.1 ∧ t.2 = SplitKeyboard.nextInStep s.2 s.1 e :=
  Machine.recording_step.mp h

/-- The invariant holds in every state of every run. -/
theorem split_linked (es : List (SplitEvent κ)) :
    (splitKeyboard κ sendErr buttonState).Always (fun s => s.1.Linked s.2) es := by
  refine Machine.alwaysFrom_of_step es (SplitKeyboard.linked_init buttonState) ?_
  intro s e t hs ht
  obtain ⟨hstep, hnext⟩ := split_step ht
  rw [hnext]
  exact hs.step hstep

/-- **The firmware in the system**: the callbacks of a run of the system are a run of the
firmware, so that what holds of those holds here. -/
theorem split_run {es : List (SplitEvent κ)} {s : SplitKeyboard κ × Bool}
    (hrun : (splitKeyboard κ sendErr buttonState).run es = some s) :
    (firmware κ sendErr).run ((splitKeyboard κ sendErr buttonState).emitted
      (fun s e => s.1.callbacks e) (.init buttonState, false) es) = some s.1.fw := by
  refine Machine.runFrom_emitted (f := fun s : SplitKeyboard κ × Bool => s.1.fw) ?_ hrun
  intro s e t ht
  obtain ⟨-, fw, hfw, heq⟩ := SplitKeyboard.step_iff.mp (split_step ht).1
  rw [hfw, ← heq]

/-- **Agreement over any number of links**: whenever the halves are in step and nothing is on its
way, the client has the word of the last left scan. -/
theorem split_agrees (es : List (SplitEvent κ)) :
    (splitKeyboard κ sendErr buttonState).Always
      (fun s => s.2 = true → s.1.halves.Quiet → s.1.halves.Agree) es := by
  refine (split_linked sendErr buttonState es).mono ?_
  intro s hs hin hquiet
  have hsettles := hs.halves.settles hin
  rwa [hquiet.2] at hsettles

end

end BleKeyboard
