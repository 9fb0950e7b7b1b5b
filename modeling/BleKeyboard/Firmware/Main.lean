import BleKeyboard.Base.Machine
import BleKeyboard.Firmware.Client
import BleKeyboard.Firmware.Pairing

/-!
# The HID keyboard as a whole (`main.c`)

The file-level variables, the connection callbacks and the main loop, as one
machine: an event is a callback from the Bluetooth stack, a work item, or one
turn of the main loop. Every callback runs to completion before the next event.

What the stack decides is part of the event: the role of a connection, the
return codes of the calls a callback makes, the data it is given, the pin
readings of a scan.
-/

namespace BleKeyboard

open Base

universe u

/-- `BUT_ACCEPT_POS`, used as a mask. -/
def butAcceptPos : Word := 0x08

/-- `BUT_REJECT_POS`, used as a mask. -/
def butRejectPos : Word := 0x16

/-- `info.role`. -/
inductive Role where
  | central
  | peripheral
  deriving DecidableEq, Repr

/-- `enum bt_hids_pm_evt`. -/
inductive PmEvt where
  | bootModeEntered
  | reportModeEntered
  deriving DecidableEq, Repr

/-- The variables of `main.c`. `hid` is an error from the first access outside
an array on. -/
structure Firmware (κ : Type u) where
  kbds : KbdsClient
  defaultConn : Option Conn
  poll : Poll
  inPairingMode : Bool
  isAdv : Bool
  connMode : ConnModes
  hid : Except Fault Hid
  pairing : Pairing κ
  pairingButtonPressed : Bool

namespace Firmware

variable {κ : Type u}

/-- The state in which the main loop starts, advertising under way. -/
def init : Firmware κ where
  kbds := .clientInit
  defaultConn := none
  poll := .zero
  inPairingMode := true
  isAdv := true
  connMode := Vector.replicate hidsMaxClientCount ⟨none, false⟩
  hid := .ok ⟨.zero, []⟩
  pairing := .empty
  pairingButtonPressed := false

/-! ## Connections -/

/-- The loop of `connected`: the first free entry takes the connection. -/
def insertConn (conn : Conn) : List ConnMode → List ConnMode
  | [] => []
  | m :: ms => if m.conn = none then ⟨some conn, false⟩ :: ms else m :: insertConn conn ms

theorem length_insertConn (conn : Conn) (ms : List ConnMode) :
    (insertConn conn ms).length = ms.length := by
  induction ms with
  | nil => rfl
  | cons m ms ih =>
    rw [insertConn]
    split
    · rfl
    · rw [List.length_cons, ih, List.length_cons]

/-- The loop of `connected` over `conn_mode`. -/
def addConn (conn : Conn) (modes : ConnModes) : ConnModes :=
  ⟨(insertConn conn modes.toList).toArray, by
    rw [List.size_toArray, length_insertConn, Vector.length_toList]⟩

/-- `connected`; `hidsErr` is what `bt_hids_connected` returns. -/
def connected (conn : Conn) (err : Byte) (role : Role) (hidsErr : Int) (fw : Firmware κ) :
    Firmware κ :=
  if err ≠ 0 then
    if some conn = fw.defaultConn then { fw with defaultConn := none } else fw
  else
    match role with
    -- the left half: only its discovery starts
    | .central => fw
    | .peripheral =>
      if hidsErr ≠ 0 then fw
      else { fw with connMode := addConn conn fw.connMode, isAdv := false }

/-- The loop of `disconnected`: the entry of the connection is freed. -/
def removeConn (conn : Conn) (modes : ConnModes) : ConnModes :=
  modes.map fun m => if m.conn = some conn then { m with conn := none } else m

theorem removeConn_get (conn : Conn) (modes : ConnModes) (i : Fin hidsMaxClientCount) :
    (removeConn conn modes).get i
      = if (modes.get i).conn = some conn then { modes.get i with conn := none }
        else modes.get i := Vector.getElem_map _ i.isLt

/-- `is_any_dev_connected` after the loop of `disconnected`. -/
def isAnyDevConnected (conn : Conn) (modes : ConnModes) : Bool :=
  modes.toList.any fun m => decide (m.conn ≠ some conn) && m.conn.isSome

/-- `disconnected`; `advErr` is what `bt_le_adv_start` returns. -/
def disconnected (conn : Conn) (role : Role) (advErr : Int) (fw : Firmware κ) : Firmware κ :=
  match role with
  | .central =>
    if fw.defaultConn ≠ some conn then fw
    -- `last_keystate_left` and the handles stay as they are
    else { fw with kbds := { fw.kbds with keystates := 0x00 }, defaultConn := none }
  | .peripheral =>
    let anyDev := isAnyDevConnected conn fw.connMode
    { fw with
      connMode := removeConn conn fw.connMode
      -- the one place that sets the flag
      inPairingMode := if !anyDev then true else fw.inPairingMode
      isAdv := if advErr = 0 then true else fw.isAdv }

/-- `security_changed`. -/
def securityChanged (_conn : Conn) (err : Byte) (fw : Firmware κ) : Firmware κ :=
  if err = 0 then { fw with inPairingMode := false } else fw

/-- `hids_pm_evt_handler`: the first entry of the connection changes its mode. -/
def hidsPmEvtHandler (evt : PmEvt) (conn : Conn) (fw : Firmware κ) : Firmware κ :=
  match (List.finRange hidsMaxClientCount).find? fun i => (fw.connMode.get i).conn = some conn with
  | none => fw
  | some i =>
    let inBootMode := match evt with
      | .bootModeEntered => true
      | .reportModeEntered => false
    { fw with connMode := fw.connMode.set i.val { fw.connMode.get i with inBootMode } }

/-! ## The main loop -/

/-- `pairing_mode`, with the stack calls its answer makes. It returns
`last_keystate_right` on every path. -/
def pairingMode (lastKeystateRight rightKeystateChange : Word) (fw : Firmware κ) :
    Firmware κ × List (PairingCall κ) :=
  let buttons := lastKeystateRight &&& rightKeystateChange
  -- no action if an answer key is released
  let rest (fw : Firmware κ) : Firmware κ × List (PairingCall κ) :=
    if fw.pairingButtonPressed && rightKeystateChange &&& (butAcceptPos ||| butRejectPos) ≠ 0 then
      ({ fw with pairingButtonPressed := false }, [])
    else (fw, [])
  if fw.pairing.mitmQueue.numUsed ≠ 0 then
    if buttons &&& butAcceptPos ≠ 0 then
      let (pairing, calls) := fw.pairing.numCompReply true
      ({ fw with pairing, pairingButtonPressed := true, inPairingMode := false }, calls)
    else if buttons &&& butRejectPos ≠ 0 then
      let (pairing, calls) := fw.pairing.numCompReply false
      ({ fw with pairing, pairingButtonPressed := true }, calls)
    else rest fw
  else rest fw

/-- `conn_mode[0].conn`. -/
def firstHost (modes : ConnModes) : Option Conn := modes[0].conn

/-- The condition of the main loop's first branch. -/
def reporting (fw : Firmware κ) : Bool := (firstHost fw.connMode).isSome && !fw.inPairingMode

/-- One turn of the main loop. -/
def mainLoop (sendErr : Nat → Int) (pins : Pins) (fw : Firmware κ) :
    Firmware κ × List (PairingCall κ) :=
  if fw.reporting then
    -- the call dispatches the changes of an earlier turn's scan
    let (poll, hid) := callKeyReport sendErr fw.connMode fw.kbds.keystates fw.poll fw.hid
    ({ fw with poll := poll.scanned pins, hid }, [])
  else if fw.inPairingMode then
    -- the scan overwrites the changes of the one before, dispatched or not
    let fw := { fw with poll := fw.poll.scanned pins }
    pairingMode fw.poll.lastKeystateRight fw.poll.rightKeystateChange fw
  else (fw, [])

/-! ## Events -/

/-- What can happen next. -/
inductive Event (κ : Type u) where
  | scanConnecting (conn : Conn)
  | connected (conn : Conn) (err : Byte) (role : Role) (hidsErr : Int)
  | disconnected (conn : Conn) (role : Role) (advErr : Int)
  | securityChanged (conn : Conn) (err : Byte)
  | pmEvt (evt : PmEvt) (conn : Conn)
  | discoveryCompleted (dm : KbdsClient.Discovery) (subscribeErr readErr : Int)
  | notified (data : Data)
  | readResponse (err : Byte) (data : Data)
  | readWork
  | periodicResponse (err : Byte) (data : Data)
  | passkeyConfirm (conn : Conn) (passkey : κ)
  | authCancel (conn : Conn)
  | pairingFailed (conn : Conn)
  | pairingWork
  | turn (pins : Pins)

/-- One event, with the stack calls of the pairing handlers. `none`: a work item
that is not pending, or a notification that is read past its end. -/
def react (sendErr : Nat → Int) (fw : Firmware κ) :
    Event κ → Option (Firmware κ × List (PairingCall κ))
  | .scanConnecting conn => some ({ fw with defaultConn := some conn }, [])
  | .connected conn err role hidsErr => some (fw.connected conn err role hidsErr, [])
  | .disconnected conn role advErr => some (fw.disconnected conn role advErr, [])
  | .securityChanged conn err => some (fw.securityChanged conn err, [])
  | .pmEvt evt conn => some (fw.hidsPmEvtHandler evt conn, [])
  | .discoveryCompleted dm subscribeErr readErr =>
    some ({ fw with kbds := (discoveryCompletedCb dm subscribeErr readErr fw.kbds).1 }, [])
  | .notified data =>
    match fw.kbds.notifyProcess data with
    | none => none
    | some (kbds, _) => some ({ fw with kbds }, [])
  | .readResponse err data =>
    let (kbds, reply) := fw.kbds.readProcess err data
    some ({ fw with kbds, poll := invoke reply fw.poll }, [])
  | .readWork =>
    if fw.kbds.periodicRead.readWorkPending then
      some ({ fw with kbds := fw.kbds.kbdsReadValueHandler.1 }, [])
    else none
  | .periodicResponse err data =>
    some ({ fw with kbds := (fw.kbds.periodicReadProcess err data).1 }, [])
  | .passkeyConfirm conn passkey =>
    let (pairing, calls) := fw.pairing.authPasskeyConfirm conn passkey
    some ({ fw with pairing }, calls)
  | .authCancel conn => some ({ fw with pairing := fw.pairing.authCancel conn }, [])
  | .pairingFailed conn =>
    let (pairing, calls) := fw.pairing.pairingFailed conn
    some ({ fw with pairing }, calls)
  | .pairingWork =>
    if fw.pairing.workPending then
      let (pairing, calls) := fw.pairing.pairingProcess
      some ({ fw with pairing }, calls)
    else none
  | .turn pins => some (fw.mainLoop sendErr pins)

/-- The state after an event. -/
def step (sendErr : Nat → Int) (fw : Firmware κ) (e : Event κ) : Option (Firmware κ) :=
  (fw.react sendErr e).map Prod.fst

/-- The stack calls of the pairing handlers during an event. -/
def calls (sendErr : Nat → Int) (fw : Firmware κ) (e : Event κ) : List (PairingCall κ) :=
  ((fw.react sendErr e).map Prod.snd).getD []

end Firmware

/-- The HID keyboard, given what the HIDS stack returns to each report. -/
def firmware (κ : Type u) (sendErr : Nat → Int) : Machine (Firmware κ) (Firmware.Event κ) where
  init := .init
  step := Firmware.step sendErr

end BleKeyboard
