import BleKeyboard.Firmware.Main

/-!
# Passkeys are only carried

The firmware copies passkeys and prints them; it never decides anything by one. So a
function applied to all passkeys commutes with every step (`step_mapPasskeys`). This is
what makes it safe to reason about runs whose passkeys carry something else along.
-/

namespace BleKeyboard

open Base

universe u v

variable {κ : Type u} {κ' : Type v} (f : κ → κ')

/-- The request with another passkey. -/
def PairingDataMitm.mapPasskey (d : PairingDataMitm κ) : PairingDataMitm κ' :=
  ⟨d.conn, f d.passkey⟩

namespace Pairing

/-- The queue with other passkeys. -/
def mapPasskeys (p : Pairing κ) : Pairing κ' :=
  ⟨p.mitmQueue.map (PairingDataMitm.mapPasskey f), p.workPending⟩

theorem ext_items {p q : Pairing κ} (hitems : p.mitmQueue.items = q.mitmQueue.items)
    (hwork : p.workPending = q.workPending) : p = q := by
  obtain ⟨pq, pw⟩ := p
  obtain ⟨qq, qw⟩ := q
  obtain rfl : pq = qq := MsgQueue.ext hitems
  obtain rfl : pw = qw := hwork
  rfl

theorem authPasskeyConfirm_mapPasskeys (conn : Conn) (passkey : κ) (p : Pairing κ) :
    ((p.mapPasskeys f).authPasskeyConfirm conn (f passkey)).1
      = (p.authPasskeyConfirm conn passkey).1.mapPasskeys f := by
  have hitems : ((p.mapPasskeys f).authPasskeyConfirm conn (f passkey)).1.mitmQueue.items
      = (p.authPasskeyConfirm conn passkey).1.mitmQueue.items.map
          (PairingDataMitm.mapPasskey f) := by
    rw [authPasskeyConfirm_items, authPasskeyConfirm_items, mapPasskeys, MsgQueue.map_items,
      List.length_map]
    split
    · rw [List.map_append]
      rfl
    · rfl
  refine ext_items hitems ?_
  show _ = (p.authPasskeyConfirm conn passkey).1.workPending
  rw [authPasskeyConfirm_workPending, authPasskeyConfirm_workPending, hitems, List.length_map]
  rfl

theorem pairingFailed_mapPasskeys (conn : Conn) (p : Pairing κ) :
    ((p.mapPasskeys f).pairingFailed conn).1 = (p.pairingFailed conn).1.mapPasskeys f := by
  refine ext_items ?_ ?_
  · show _ = (p.pairingFailed conn).1.mitmQueue.items.map (PairingDataMitm.mapPasskey f)
    have hhead : ((p.mapPasskeys f).mitmQueue.items.head?.map PairingDataMitm.conn)
        = p.mitmQueue.items.head?.map PairingDataMitm.conn := by
      rw [mapPasskeys, MsgQueue.map_items, List.head?_map, Option.map_map]
      rfl
    rw [pairingFailed_items, pairingFailed_items, hhead]
    split
    · exact List.map_tail.symm
    · rfl
  · rw [pairingFailed_workPending]
    exact (pairingFailed_workPending conn p).symm

theorem numCompReply_mapPasskeys (accept : Bool) (p : Pairing κ) :
    ((p.mapPasskeys f).numCompReply accept).1 = (p.numCompReply accept).1.mapPasskeys f := by
  refine ext_items ?_ ?_
  · show _ = (p.numCompReply accept).1.mitmQueue.items.map (PairingDataMitm.mapPasskey f)
    rw [numCompReply_items, numCompReply_items, mapPasskeys, MsgQueue.map_items, List.map_tail]
  · show _ = (p.numCompReply accept).1.workPending
    rw [numCompReply_workPending, numCompReply_workPending, mapPasskeys, MsgQueue.map_items,
      ← List.map_tail, List.isEmpty_map]

theorem pairingProcess_mapPasskeys (p : Pairing κ) :
    (p.mapPasskeys f).pairingProcess.1 = p.pairingProcess.1.mapPasskeys f := by
  refine ext_items ?_ ?_
  · show _ = p.pairingProcess.1.mitmQueue.items.map (PairingDataMitm.mapPasskey f)
    rw [pairingProcess_mitmQueue, pairingProcess_mitmQueue]
    rfl
  · rw [pairingProcess_workPending]
    exact p.pairingProcess_workPending.symm

end Pairing

namespace Firmware

/-- The event with another passkey. -/
def Event.mapPasskey : Event κ → Event κ'
  | .scanConnecting conn => .scanConnecting conn
  | .connected conn err role hidsErr => .connected conn err role hidsErr
  | .disconnected conn role advErr => .disconnected conn role advErr
  | .securityChanged conn err => .securityChanged conn err
  | .pmEvt evt conn => .pmEvt evt conn
  | .discoveryCompleted dm subscribeErr readErr => .discoveryCompleted dm subscribeErr readErr
  | .notified data => .notified data
  | .readResponse err data => .readResponse err data
  | .readWork => .readWork
  | .periodicResponse err data => .periodicResponse err data
  | .passkeyConfirm conn passkey => .passkeyConfirm conn (f passkey)
  | .authCancel conn => .authCancel conn
  | .pairingFailed conn => .pairingFailed conn
  | .pairingWork => .pairingWork
  | .turn pins => .turn pins

/-- The firmware with other passkeys. -/
def mapPasskeys (fw : Firmware κ) : Firmware κ' where
  kbds := fw.kbds
  defaultConn := fw.defaultConn
  poll := fw.poll
  inPairingMode := fw.inPairingMode
  isAdv := fw.isAdv
  connMode := fw.connMode
  hid := fw.hid
  pairing := fw.pairing.mapPasskeys f
  pairingButtonPressed := fw.pairingButtonPressed

@[simp] theorem mapPasskeys_kbds (fw : Firmware κ) : (fw.mapPasskeys f).kbds = fw.kbds := rfl

theorem connected_mapPasskeys (conn : Conn) (err : Byte) (role : Role) (hidsErr : Int)
    (fw : Firmware κ) : (fw.mapPasskeys f).connected conn err role hidsErr
      = (fw.connected conn err role hidsErr).mapPasskeys f := by
  unfold connected
  by_cases herr : err ≠ 0
  · rw [if_pos herr, if_pos herr]
    by_cases hdef : some conn = fw.defaultConn
    · have hdef' : some conn = (fw.mapPasskeys f).defaultConn := hdef
      rw [if_pos hdef, if_pos hdef']
      rfl
    · have hdef' : ¬some conn = (fw.mapPasskeys f).defaultConn := hdef
      rw [if_neg hdef, if_neg hdef']
  · rw [if_neg herr, if_neg herr]
    cases role with
    | central => rfl
    | peripheral =>
      by_cases hhids : hidsErr ≠ 0
      · simp only [if_pos hhids]
      · simp only [if_neg hhids]
        rfl

theorem disconnected_mapPasskeys (conn : Conn) (role : Role) (advErr : Int) (fw : Firmware κ) :
    (fw.mapPasskeys f).disconnected conn role advErr
      = (fw.disconnected conn role advErr).mapPasskeys f := by
  unfold disconnected
  cases role with
  | central =>
    by_cases hdef : fw.defaultConn ≠ some conn
    · have hdef' : (fw.mapPasskeys f).defaultConn ≠ some conn := hdef
      simp only [if_pos hdef, if_pos hdef']
    · have hdef' : ¬(fw.mapPasskeys f).defaultConn ≠ some conn := hdef
      simp only [if_neg hdef, if_neg hdef']
      rfl
  | peripheral => rfl

theorem securityChanged_mapPasskeys (conn : Conn) (err : Byte) (fw : Firmware κ) :
    (fw.mapPasskeys f).securityChanged conn err
      = (fw.securityChanged conn err).mapPasskeys f := by
  rw [securityChanged, securityChanged]
  split <;> rfl

theorem hidsPmEvtHandler_mapPasskeys (evt : PmEvt) (conn : Conn) (fw : Firmware κ) :
    (fw.mapPasskeys f).hidsPmEvtHandler evt conn
      = (fw.hidsPmEvtHandler evt conn).mapPasskeys f := by
  have hfind : ((List.finRange hidsMaxClientCount).find? fun i =>
        ((fw.mapPasskeys f).connMode.get i).conn = some conn)
      = (List.finRange hidsMaxClientCount).find? fun i =>
        (fw.connMode.get i).conn = some conn := rfl
  unfold hidsPmEvtHandler
  rw [hfind]
  cases (List.finRange hidsMaxClientCount).find? fun i =>
    (fw.connMode.get i).conn = some conn <;> rfl

theorem pairingMode_mapPasskeys (word change : Word) (fw : Firmware κ) :
    ((fw.mapPasskeys f).pairingMode word change).1
      = (fw.pairingMode word change).1.mapPasskeys f := by
  have hused : (fw.mapPasskeys f).pairing.mitmQueue.numUsed = fw.pairing.mitmQueue.numUsed :=
    List.length_map _
  have hanswer : ∀ accept,
      ((fw.mapPasskeys f).pairing.numCompReply accept).1
        = (fw.pairing.numCompReply accept).1.mapPasskeys f :=
    fun accept => fw.pairing.numCompReply_mapPasskeys f accept
  have hpressed : (fw.mapPasskeys f).pairingButtonPressed = fw.pairingButtonPressed := rfl
  simp only [pairingMode, hused, hanswer, hpressed]
  -- the same branch is taken on both sides
  split
  · split
    · rfl
    · split
      · rfl
      · split <;> rfl
  · split <;> rfl

theorem mainLoop_mapPasskeys (sendErr : Nat → Int) (pins : Pins) (fw : Firmware κ) :
    ((fw.mapPasskeys f).mainLoop sendErr pins).1 = (fw.mainLoop sendErr pins).1.mapPasskeys f := by
  have hrep : (fw.mapPasskeys f).reporting = fw.reporting := rfl
  have hmode : (fw.mapPasskeys f).inPairingMode = fw.inPairingMode := rfl
  rw [mainLoop, mainLoop, hrep, hmode]
  split
  · rfl
  · split
    · exact pairingMode_mapPasskeys f _ _ { fw with poll := fw.poll.scanned pins }
    · rfl

/-- **Passkeys are only carried**: other passkeys change nothing else about a step. -/
theorem step_mapPasskeys (sendErr : Nat → Int) (fw : Firmware κ) (e : Event κ) :
    (fw.step sendErr e).map (mapPasskeys f) = (fw.mapPasskeys f).step sendErr (e.mapPasskey f) := by
  cases e with
  | connected conn err role hidsErr =>
    exact congrArg some (connected_mapPasskeys f conn err role hidsErr fw).symm
  | disconnected conn role advErr =>
    exact congrArg some (disconnected_mapPasskeys f conn role advErr fw).symm
  | securityChanged conn err => exact congrArg some (securityChanged_mapPasskeys f conn err fw).symm
  | pmEvt evt conn => exact congrArg some (hidsPmEvtHandler_mapPasskeys f evt conn fw).symm
  | notified data =>
    simp only [step, react, Event.mapPasskey, mapPasskeys_kbds]
    cases fw.kbds.notifyProcess data <;> rfl
  | readWork =>
    by_cases hwork : fw.kbds.periodicRead.readWorkPending = true
    · have hwork' : (fw.mapPasskeys f).kbds.periodicRead.readWorkPending = true := hwork
      simp only [step, react, Event.mapPasskey, if_pos hwork, if_pos hwork']
      rfl
    · have hwork' : ¬(fw.mapPasskeys f).kbds.periodicRead.readWorkPending = true := hwork
      simp only [step, react, Event.mapPasskey, if_neg hwork, if_neg hwork']
      rfl
  | passkeyConfirm conn passkey =>
    show some { fw.mapPasskeys f with
      pairing := (fw.pairing.authPasskeyConfirm conn passkey).1.mapPasskeys f } = _
    rw [← Pairing.authPasskeyConfirm_mapPasskeys]
    rfl
  | pairingFailed conn =>
    show some { fw.mapPasskeys f with
      pairing := (fw.pairing.pairingFailed conn).1.mapPasskeys f } = _
    rw [← Pairing.pairingFailed_mapPasskeys]
    rfl
  | pairingWork =>
    by_cases hwork : fw.pairing.workPending = true
    · have hwork' : (fw.mapPasskeys f).pairing.workPending = true := hwork
      simp only [step, react, Event.mapPasskey, if_pos hwork, if_pos hwork']
      show some { fw.mapPasskeys f with
        pairing := fw.pairing.pairingProcess.1.mapPasskeys f } = _
      rw [← Pairing.pairingProcess_mapPasskeys]
      rfl
    · have hwork' : ¬(fw.mapPasskeys f).pairing.workPending = true := hwork
      simp only [step, react, Event.mapPasskey, if_neg hwork, if_neg hwork']
      rfl
  | turn pins => exact congrArg some (mainLoop_mapPasskeys f sendErr pins fw).symm
  | scanConnecting _ | discoveryCompleted _ _ _ | readResponse _ _ | periodicResponse _ _
  | authCancel _ => rfl

end Firmware

end BleKeyboard
