import BleKeyboard.Base.Slots
import BleKeyboard.Firmware.Keys

/-!
# The keyboard report (`main.c` of the HID keyboard, report path)

`hid_keyboard_state`, the two slot searches, and `create_report`, which turns
one edge of one switch into an update of that state and a report to the hosts.

The searches of `hid_kbd_state_key_set` and `hid_kbd_state_key_clear` run to
`KEY_CTRL_CODE_MAX`, far past the six slots. The model reads a slot through
`loadSlot`, which faults outside the array, so a search that leaves the table
shows up as `.error (.keysState 6)`: C gives the program no meaning from there
on. The key maps are read in the same way.

The HIDS stack is not part of the sources: what it returns to the `n`-th report
handed to it is a parameter `sendErr n`, and the reports are kept in a log.
-/

namespace BleKeyboard

open Base

/-- `KEY_CTRL_CODE_MIN`. -/
def keyCtrlCodeMin : Nat := 224

/-- `KEY_CTRL_CODE_MAX`. -/
def keyCtrlCodeMax : Nat := 231

/-- `KEY_PRESS_MAX`: maximum number of non-control keys pressed simultaneously. -/
def keyPressMax : Nat := 6

/-- `EBUSY`. -/
def ebusy : Int := 16

/-- `EINVAL`. -/
def einval : Int := 22

/-- An access outside an array: slot `index` of `keys_state`, or entry
`[layer][j][k]` of a key map. -/
inductive Fault where
  | keysState (index : Nat)
  | keyMap (layer j k : Nat)
  deriving DecidableEq, Repr

instance decidableEqExcept {ε α : Type*} [DecidableEq ε] [DecidableEq α] :
    DecidableEq (Except ε α)
  | .ok a, .ok b => decidable_of_iff (a = b) ⟨congrArg Except.ok, Except.ok.inj⟩
  | .error a, .error b => decidable_of_iff (a = b) ⟨congrArg Except.error, Except.error.inj⟩
  | .ok _, .error _ => .isFalse nofun
  | .error _, .ok _ => .isFalse nofun

theorem exceptMap_eq_ok {ε α β : Type*} {x : Except ε α} {f : α → β} {b : β}
    (h : x.map f = .ok b) : ∃ a, x = .ok a ∧ f a = b := by
  cases x with
  | error e => cases h
  | ok a => exact ⟨a, rfl, Except.ok.inj h⟩

theorem exceptBind_eq_ok {ε α β : Type*} {x : Except ε α} {f : α → Except ε β} {b : β}
    (h : x.bind f = .ok b) : ∃ a, x = .ok a ∧ f a = .ok b := by
  cases x with
  | error e => cases h
  | ok a => exact ⟨a, rfl, h⟩

theorem exceptToOption_eq_some {ε α : Type*} {x : Except ε α} {a : α}
    (h : x.toOption = some a) : x = .ok a := by
  cases x with
  | error e => cases h
  | ok b => exact congrArg Except.ok (Option.some.inj h)

/-- `struct keyboard_state`. -/
structure KeyboardState where
  ctrlKeysState : Byte
  keysState : Vector Byte keyPressMax
  deriving DecidableEq, Repr

/-- The zero-initialised `hid_keyboard_state`. -/
def KeyboardState.zero : KeyboardState := ⟨0, Vector.replicate keyPressMax 0⟩

/-! ## The slot searches -/

/-- Read `keys_state[i]`. -/
def loadSlot (st : KeyboardState) (i : Nat) : Except Fault Byte :=
  if h : i < keyPressMax then .ok (st.keysState.get ⟨i, h⟩) else .error (.keysState i)

/-- Write `keys_state[i]`, a slot that has just been read. -/
def storeSlot (st : KeyboardState) (i : Nat) (key : Byte) : KeyboardState :=
  { st with keysState := st.keysState.setIfInBounds i key }

/-- The search loop of `hid_kbd_state_key_set` and `hid_kbd_state_key_clear`:
`n` more turns from index `i` for the first slot that holds `v`. -/
def findSlot (st : KeyboardState) (v : Byte) : Nat → Nat → Except Fault (Option Nat)
  | 0, _ => .ok none
  | n + 1, i => do
    let b ← loadSlot st i
    if b = v then .ok (some i) else findSlot st v n (i + 1)

/-- `button_ctrl_code`: the mask of a control key code, or 0. -/
def buttonCtrlCode (key : Byte) : Byte :=
  if keyCtrlCodeMin ≤ key.toNat ∧ key.toNat ≤ keyCtrlCodeMax then
    1#8 <<< (key.toNat - keyCtrlCodeMin)
  else 0

/-- `hid_kbd_state_key_set`: the return value and the new state. -/
def hidKbdStateKeySet (key : Byte) (st : KeyboardState) : Except Fault (Int × KeyboardState) :=
  let ctrlMask := buttonCtrlCode key
  if ctrlMask ≠ 0 then
    .ok (0, { st with ctrlKeysState := st.ctrlKeysState ||| ctrlMask })
  else do
    match ← findSlot st 0 keyCtrlCodeMax 0 with
    | some i => .ok (0, storeSlot st i key)
    -- all slots busy; but by then the search has left the table
    | none => .ok (-ebusy, st)

/-- `hid_kbd_state_key_clear`: the return value and the new state. -/
def hidKbdStateKeyClear (key : Byte) (st : KeyboardState) : Except Fault (Int × KeyboardState) :=
  let ctrlMask := buttonCtrlCode key
  if ctrlMask ≠ 0 then
    .ok (0, { st with ctrlKeysState := st.ctrlKeysState &&& ~~~ctrlMask })
  else do
    match ← findSlot st key keyCtrlCodeMax 0 with
    | some i => .ok (0, storeSlot st i 0)
    -- key not found; likewise
    | none => .ok (-einval, st)

/-- `hid_buttons_press`; the `dev_mode` build does not send from here. -/
def hidButtonsPress : List Byte → KeyboardState → Except Fault (Int × KeyboardState)
  | [], st => .ok (0, st)
  | key :: keys, st => do
    let (err, st) ← hidKbdStateKeySet key st
    if err ≠ 0 then .ok (err, st) else hidButtonsPress keys st

/-- `hid_buttons_release`. The `dev_mode` build falls off its end without a
return value; no caller reads it. -/
def hidButtonsRelease : List Byte → KeyboardState → Except Fault (Int × KeyboardState)
  | [], st => .ok (0, st)
  | key :: keys, st => do
    let (err, st) ← hidKbdStateKeyClear key st
    if err ≠ 0 then .ok (err, st) else hidButtonsRelease keys st

/-- Read `key_map_left[i][j][k]` or `key_map_right[i][j][k]`. -/
def loadKeyMap (lOrR : Bool) (i j k : Nat) : Except Fault Byte :=
  match keyAt (keyMap lOrR) i j k with
  | some chr => .ok chr
  | none => .error (.keyMap i j k)

/-- `button_text_change`: set or clear one key; the return values are dropped. -/
def buttonTextChange (down lOrR : Bool) (i j k : Nat) (st : KeyboardState) :
    Except Fault KeyboardState := do
  let chr ← loadKeyMap lOrR i j k
  let (_, st) ← if down then hidButtonsPress [chr] st else hidButtonsRelease [chr] st
  .ok st

/-! ## Reports to the hosts -/

/-- A connection handle, `struct bt_conn *` other than `NULL`. -/
abbrev Conn := Nat

/-- `struct conn_mode`. -/
structure ConnMode where
  conn : Option Conn
  inBootMode : Bool
  deriving DecidableEq, Repr

/-- `CONFIG_BT_HIDS_MAX_CLIENT_COUNT`. -/
def hidsMaxClientCount : Nat := 2

/-- `conn_mode[CONFIG_BT_HIDS_MAX_CLIENT_COUNT]`. -/
abbrev ConnModes := Vector ConnMode hidsMaxClientCount

/-- A report handed to the HIDS stack, with what the stack returned. -/
structure SentReport where
  conn : Conn
  bootMode : Bool
  data : List Byte
  err : Int
  deriving DecidableEq, Repr

/-- `hid_keyboard_state` together with the log of the reports sent from it. -/
structure Hid where
  kbd : KeyboardState
  sent : List SentReport
  deriving DecidableEq, Repr

/-- `INPUT_REP_KEYS_REF_ID`. -/
def inputRepKeysRefId : Byte := 1

/-- `OUTPUT_REP_KEYS_REF_ID`. -/
def outputRepKeysRefId : Byte := 1

/-- `report_map`, which `hid_init` hands to the HIDS stack. Both report ids are set. -/
def reportMap : List Byte :=
  [0x05, 0x01, 0x09, 0x06, 0xA1, 0x01,
    -- keys
    0x85, inputRepKeysRefId,
    0x05, 0x07, 0x19, 0xe0, 0x29, 0xe7, 0x15, 0x00, 0x25, 0x01, 0x75, 0x01, 0x95, 0x08,
    0x81, 0x02,
    0x95, 0x01, 0x75, 0x08, 0x81, 0x01,
    0x95, 0x06, 0x75, 0x08, 0x15, 0x00, 0x25, 0x65, 0x05, 0x07, 0x19, 0x00, 0x29, 0x65,
    0x81, 0x00,
    -- LEDs
    0x85, outputRepKeysRefId,
    0x95, 0x05, 0x75, 0x01, 0x05, 0x08, 0x19, 0x01, 0x29, 0x05, 0x91, 0x02,
    0x95, 0x01, 0x75, 0x03, 0x91, 0x01,
    0xC0]

/-- The data bytes `key_report_con_send` builds: control keys, reserved byte,
slots. -/
def keyReport (st : KeyboardState) : List Byte := st.ctrlKeysState :: 0 :: st.keysState.toList

/-- `key_report_con_send`. -/
def keyReportConSend (sendErr : Nat → Int) (hid : Hid) (bootMode : Bool) (conn : Conn) :
    Int × Hid :=
  let err := sendErr hid.sent.length
  (err, { hid with sent := hid.sent ++ [⟨conn, bootMode, keyReport hid.kbd, err⟩] })

/-- The loop of `key_report_send`: stop at the first report the stack refuses. -/
def keyReportSendLoop (sendErr : Nat → Int) : List ConnMode → Hid → Int × Hid
  | [], hid => (0, hid)
  | m :: ms, hid =>
    match m.conn with
    | none => keyReportSendLoop sendErr ms hid
    | some conn =>
      let (err, hid) := keyReportConSend sendErr hid m.inBootMode conn
      if err ≠ 0 then (err, hid) else keyReportSendLoop sendErr ms hid

/-- `key_report_send`. -/
def keyReportSend (sendErr : Nat → Int) (modes : ConnModes) (hid : Hid) : Int × Hid :=
  keyReportSendLoop sendErr modes.toList hid

/-! ## One edge -/

/-- The arguments of one call of `create_report`. -/
structure Call where
  down : Bool
  lOrR : Bool
  position : Nat
  deriving DecidableEq, Repr

/-- The switch a call is about. -/
def Call.pos (c : Call) : Pos := (c.lOrR, c.position)

/-- `create_report`, "hard coding the fix for the second layer shift problem":
on layer 2 the row-0 keys of the shifted symbols carry Left Shift along. -/
def implicitShift (layer : Fin 4) (c : Call) (st : KeyboardState) : KeyboardState :=
  let j := c.position / 6
  let k := c.position % 6
  if layer == 2 && j == 0 && ((c.lOrR && decide (k > 0)) || (!c.lOrR && decide (k < 5))) then
    { st with
      ctrlKeysState := setOrClearModByte st.ctrlKeysState c.down keyMapLeft[0][2][0] }
  else st

/-- `create_report` with `layer_selection = layer`. -/
def createReport (sendErr : Nat → Int) (modes : ConnModes) (layer : Fin 4) (c : Call)
    (hid : Hid) : Except Fault Hid :=
  -- `LAYER_KEY_1` and `LAYER_KEY_2` change no state and send no report
  if c.lOrR && c.position == 22 then .ok hid
  else if !c.lOrR && c.position == 19 then .ok hid
  else do
    let j := c.position / 6
    let k := c.position % 6
    let st := implicitShift layer c hid.kbd
    -- looked up anew for every edge, a release included
    let chr ← loadKeyMap c.lOrR layer j k
    let st ←
      if isModChr c.lOrR c.position then
        .ok { st with ctrlKeysState := setOrClearModByte st.ctrlKeysState c.down chr }
      else buttonTextChange c.down c.lOrR layer j k st
    .ok (keyReportSend sendErr modes { hid with kbd := st }).2

/-- Successive calls of `create_report`, as `call_key_report` makes them. -/
def createReports (sendErr : Nat → Int) (modes : ConnModes) (layer : Fin 4) (cs : List Call)
    (hid : Hid) : Except Fault Hid :=
  cs.foldlM (fun hid c => createReport sendErr modes layer c hid) hid

end BleKeyboard
