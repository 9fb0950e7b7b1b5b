import BleKeyboard.Firmware.Poll

/-!
# The KBDS client (`kbds_client.c`)

The client side of the link to the left half: the last key state it received,
how it got there (notification, single read, periodic read) and the handles a
discovery assigned. A callback is the function of `main.c`, or some other
function an application might pass.

The GATT layer is not part of the sources. Its return codes are arguments, and
the requests a function makes of it are listed in the result.
-/

namespace BleKeyboard

open Base

/-- `BT_KBDS_VAL_INVALID`. -/
def btKbdsValInvalid : Word := 255

/-- `BT_KBDS_VAL_MAX`. -/
def btKbdsValMax : Word := 100

/-- `EMSGSIZE`. -/
def emsgsize : Int := 122

/-- `ENOTSUP`. -/
def enotsup : Int := 134

/-- `EALREADY`. -/
def ealready : Int := 120

/-- `EFAULT`. -/
def efault : Int := 14

/-- `BT_GATT_CHRC_NOTIFY`. -/
def btGattChrcNotify : Byte := 0x10

/-- `BT_GATT_CCC_NOTIFY`. -/
def btGattCccNotify : BitVec 16 := 0x0001

/-- A function that has been passed as a `bt_kbds_notify_cb`. -/
inductive NotifyCb where
  | notifyKeystatesCb
  | other (id : Nat)
  deriving DecidableEq, Repr

/-- A function that has been passed as a `bt_kbds_read_cb`. -/
inductive ReadCb where
  | readKeystatesCb
  | other (id : Nat)
  deriving DecidableEq, Repr

/-- `struct bt_gatt_subscribe_params`, as the client fills it in. -/
structure NotifyParams where
  value : BitVec 16
  valueHandle : BitVec 16
  cccHandle : BitVec 16
  volatileFlag : Bool
  deriving DecidableEq, Repr

/-- `struct bt_kbds_periodic_read`: whether `read_work` is scheduled, the handle
in `params`, and the interval. -/
structure PeriodicRead where
  readWorkPending : Bool
  handle : BitVec 16
  interval : Int
  deriving DecidableEq, Repr

/-- `struct bt_kbds_client`. -/
structure KbdsClient where
  conn : Option Conn
  notifyParams : NotifyParams
  readHandle : BitVec 16
  periodicRead : PeriodicRead
  notifyCb : Option NotifyCb
  readCb : Option ReadCb
  valHandle : BitVec 16
  cccHandle : BitVec 16
  keystates : Word
  properties : Byte
  notify : Bool
  deriving DecidableEq, Repr

/-- A request to the GATT layer. -/
inductive GattRequest where
  | read (conn : Option Conn) (handle : BitVec 16)
  | periodicRead (conn : Option Conn) (handle : BitVec 16)
  | subscribe (conn : Option Conn) (params : NotifyParams)
  | unsubscribe (conn : Option Conn) (params : NotifyParams)
  deriving DecidableEq, Repr

/-- A call of a notification callback. -/
structure NotifyReply where
  cb : NotifyCb
  keystates : Word
  deriving DecidableEq, Repr

/-- A call of a read callback. -/
structure ReadReply where
  cb : ReadCb
  keystates : Word
  err : Int
  deriving DecidableEq, Repr

/-- The data a GATT callback is given: `none` for `NULL`. -/
abbrev Data := Option (List Byte)

/-- `*(const uint32_t *)data`; `none` if that reads past the data or through
`NULL`. -/
def loadWord (data : Data) : Option Word := data.bind readWordLE

namespace KbdsClient

/-- `notify_process`; `none` if it reads outside the data. -/
def notifyProcess (data : Data) (kbds : KbdsClient) :
    Option (KbdsClient × Option NotifyReply) := do
  let keystates ← loadWord data
  some ({ kbds with keystates }, kbds.notifyCb.map fun cb => ⟨cb, keystates⟩)

/-- A notification of a word stores the word. -/
theorem notifyProcess_toBytesLE (w : Word) (kbds : KbdsClient) :
    kbds.notifyProcess (some (toBytesLE w))
      = some ({ kbds with keystates := w }, kbds.notifyCb.map fun cb => ⟨cb, w⟩) := by
  rw [notifyProcess, loadWord, Option.bind_some, readWordLE_toBytesLE]
  rfl

/-- `read_process`: the new client and the callback invoked on the way, if any. -/
def readProcess (err : Byte) (data : Data) (kbds : KbdsClient) :
    KbdsClient × Option ReadReply :=
  let done (kbds : KbdsClient) := { kbds with readCb := none }
  match kbds.readCb with
  | none => (done kbds, none)
  | some cb =>
    if err ≠ 0 then (done kbds, some ⟨cb, btKbdsValInvalid, err.toNat⟩)
    else
      match data with
      | some [b] =>
        let keystates : Word := b.setWidth 32
        -- the invalid value is passed on with the error 0 of the read
        if keystates > btKbdsValMax then (done kbds, some ⟨cb, btKbdsValInvalid, err.toNat⟩)
        else (done { kbds with keystates }, some ⟨cb, keystates, err.toNat⟩)
      | _ => (done kbds, some ⟨cb, btKbdsValInvalid, -emsgsize⟩)

/-- `periodic_read_process`. -/
def periodicReadProcess (err : Byte) (data : Data) (kbds : KbdsClient) :
    KbdsClient × Option NotifyReply :=
  let reschedule (kbds : KbdsClient) :=
    if kbds.periodicRead.interval ≠ 0 then
      { kbds with periodicRead := { kbds.periodicRead with readWorkPending := true } }
    else kbds
  match kbds.notifyCb with
  | none => (reschedule kbds, none)
  | some cb =>
    -- a failed read, one of the wrong size or one above the maximum is dropped
    if err ≠ 0 then (reschedule kbds, none)
    else
      match data with
      | some [b] =>
        let keystates : Word := b.setWidth 32
        if keystates > btKbdsValMax then (reschedule kbds, none)
        else if kbds.keystates ≠ keystates then
          (reschedule { kbds with keystates }, some ⟨cb, keystates⟩)
        else (reschedule kbds, none)
      | _ => (reschedule kbds, none)

/-- `kbds_read_value_handler`, the handler of `read_work`. -/
def kbdsReadValueHandler (kbds : KbdsClient) : KbdsClient × List GattRequest :=
  let kbds := { kbds with periodicRead := { kbds.periodicRead with readWorkPending := false } }
  if kbds.periodicRead.interval = 0 then (kbds, [])
  else if kbds.conn = none then (kbds, [])
  else
    ({ kbds with periodicRead := { kbds.periodicRead with handle := kbds.valHandle } },
      [.periodicRead kbds.conn kbds.valHandle])

/-- `kbds_reinit`. -/
def kbdsReinit (kbds : KbdsClient) : KbdsClient :=
  { kbds with
    cccHandle := 0, valHandle := 0, keystates := btKbdsValInvalid, conn := none
    notifyCb := none, readCb := none, notify := false }

/-- `bt_kbds_client_init`: all zero, but for the key state. -/
def clientInit : KbdsClient where
  conn := none
  notifyParams := ⟨0, 0, 0, false⟩
  readHandle := 0
  periodicRead := ⟨false, 0, 0⟩
  notifyCb := none
  readCb := none
  valHandle := 0
  cccHandle := 0
  keystates := btKbdsValInvalid
  properties := 0
  notify := false

/-- What a discovery found: whether the service is the KBDS service, its button
characteristic's properties, and the handles of the characteristic's value and
CCC descriptors. -/
structure Discovery where
  conn : Conn
  isKbds : Bool
  chrcProperties : Option Byte
  valueHandle : Option (BitVec 16)
  cccHandle : Option (BitVec 16)
  deriving DecidableEq, Repr

/-- `bt_kbds_handles_assign`: the return value and the new client. -/
def handlesAssign (dm : Discovery) (kbds : KbdsClient) : Int × KbdsClient :=
  if !dm.isKbds then (-enotsup, kbds)
  else
    let kbds := { kbds with periodicRead := { kbds.periodicRead with readWorkPending := false } }
    let kbds := kbds.kbdsReinit
    -- from here on an error leaves a client without a connection
    match dm.chrcProperties with
    | none => (-einval, kbds)
    | some properties =>
      let kbds := { kbds with properties }
      match dm.valueHandle with
      | none => (-einval, kbds)
      | some valHandle =>
        let kbds := { kbds with valHandle }
        let kbds :=
          match dm.cccHandle with
          | none => kbds
          | some cccHandle => { kbds with notify := true, cccHandle }
        (0, { kbds with conn := some dm.conn })

/-- `bt_kbds_subscribe_keystates`; `gattErr` is what `bt_gatt_subscribe` returns. -/
def subscribeKeystates (func : NotifyCb) (gattErr : Int) (kbds : KbdsClient) :
    Int × KbdsClient × List GattRequest :=
  if kbds.conn = none then (-einval, kbds, [])
  else if kbds.properties &&& btGattChrcNotify = 0 then (-enotsup, kbds, [])
  else if kbds.notifyCb ≠ none then (-ealready, kbds, [])
  else
    let params : NotifyParams := ⟨btGattCccNotify, kbds.valHandle, kbds.cccHandle, true⟩
    let kbds := { kbds with notifyCb := some func, notifyParams := params }
    let request := [.subscribe kbds.conn params]
    if gattErr ≠ 0 then (gattErr, { kbds with notifyCb := none }, request)
    else (gattErr, kbds, request)

/-- `bt_kbds_unsubscribe_keystates`; `gattErr` is what `bt_gatt_unsubscribe`
returns. -/
def unsubscribeKeystates (gattErr : Int) (kbds : KbdsClient) :
    Int × KbdsClient × List GattRequest :=
  if kbds.notifyCb = none then (-efault, kbds, [])
  else (gattErr, { kbds with notifyCb := none }, [.unsubscribe kbds.conn kbds.notifyParams])

/-- `bt_kbds_read_keystates`; `gattErr` is what `bt_gatt_read` returns. -/
def readKeystates (func : ReadCb) (gattErr : Int) (kbds : KbdsClient) :
    Int × KbdsClient × List GattRequest :=
  if kbds.conn = none then (-einval, kbds, [])
  else if kbds.readCb ≠ none then (-ebusy, kbds, [])
  else
    let kbds := { kbds with readCb := some func, readHandle := kbds.valHandle }
    let request := [.read kbds.conn kbds.valHandle]
    if gattErr ≠ 0 then (gattErr, { kbds with readCb := none }, request)
    else (0, kbds, request)

/-- `bt_kbds_start_per_read_keystates`. -/
def startPerReadKeystates (interval : Int) (func : NotifyCb) (kbds : KbdsClient) :
    Int × KbdsClient :=
  if interval = 0 then (-einval, kbds)
  else if kbds.notify then (-enotsup, kbds)
  else
    (0, { kbds with
      notifyCb := some func
      periodicRead := { kbds.periodicRead with interval, readWorkPending := true } })

/-- `bt_kbds_stop_per_read_keystates`. -/
def stopPerReadKeystates (kbds : KbdsClient) : KbdsClient :=
  { kbds with periodicRead := { kbds.periodicRead with interval := 0, readWorkPending := false } }

end KbdsClient

/-! ## What a read tells its callback -/

/-- The value that `read_process` passes to its callback for a byte: above
`BT_KBDS_VAL_MAX` it is `BT_KBDS_VAL_INVALID`, still without an error. -/
def readValue (b : Byte) : Word :=
  if (b.setWidth 32 : Word) > btKbdsValMax then btKbdsValInvalid else b.setWidth 32

/-- What `read_process` tells its callback: a value and an error code. -/
def readResult (err : Byte) : Data → Word × Int
  | some [b] => if err = 0 then (readValue b, 0) else (btKbdsValInvalid, err.toNat)
  | _ => (btKbdsValInvalid, if err = 0 then -emsgsize else err.toNat)

/-- A read calls the callback that waits for it. -/
theorem KbdsClient.readProcess_reply (err : Byte) (data : Data) (kbds : KbdsClient) :
    (kbds.readProcess err data).2 =
      kbds.readCb.map fun cb => ⟨cb, (readResult err data).1, (readResult err data).2⟩ := by
  rw [readProcess]
  cases kbds.readCb with
  | none => rfl
  | some cb =>
    by_cases herr : err = 0#8
    · subst herr
      rcases data with _ | _ | ⟨b, _ | _⟩
      · rfl
      · rfl
      · -- one byte: the value, or the invalid value
        by_cases hmax : (b.setWidth 32 : Word) > btKbdsValMax
        · simp [readResult, readValue, hmax]
        · simp [readResult, readValue, hmax]
      · rfl
    · rcases data with _ | _ | ⟨b, _ | _⟩ <;> simp [readResult, herr]

/-- The callback is told no error exactly if the read succeeds with one byte. -/
theorem readResult_eq_zero_iff (err : Byte) (data : Data) :
    (readResult err data).2 = 0 ↔ err = 0 ∧ ∃ b, data = some [b] := by
  have hsize : (if err = 0 then -emsgsize else (err.toNat : Int)) ≠ 0 := by
    split
    · decide
    · next herr =>
      intro hzero
      exact herr (BitVec.eq_of_toNat_eq (Int.ofNat_eq_zero.mp hzero))
  rcases data with _ | _ | ⟨b, _ | ⟨c, bs⟩⟩
  · exact iff_of_false hsize fun h => absurd h.2 (by simp)
  · exact iff_of_false hsize fun h => absurd h.2 (by simp)
  · by_cases herr : err = 0
    · rw [readResult, if_pos herr]
      exact iff_of_true rfl ⟨herr, b, rfl⟩
    · rw [if_neg herr] at hsize
      rw [readResult, if_neg herr]
      exact iff_of_false hsize fun h => herr h.1
  · exact iff_of_false hsize fun h => absurd h.2 (by simp)

/-- The value that the readers store for a response: one byte, up to `BT_KBDS_VAL_MAX`. -/
def readStored (err : Byte) : Data → Option Word
  | some [b] =>
    if err = 0 ∧ (b.setWidth 32 : Word) ≤ btKbdsValMax then some (b.setWidth 32) else none
  | _ => none

theorem readStored_of_gt {b : Byte} (err : Byte) (hmax : (b.setWidth 32 : Word) > btKbdsValMax) :
    readStored err (some [b]) = none := if_neg fun h => BitVec.not_le.mpr hmax h.2

theorem readStored_of_not_gt {b : Byte} (hmax : ¬(b.setWidth 32 : Word) > btKbdsValMax) :
    readStored 0 (some [b]) = some (b.setWidth 32) := if_pos ⟨rfl, BitVec.not_lt.mp hmax⟩

theorem readStored_of_not_one {err : Byte} {data : Data} (hone : ¬(err = 0 ∧ ∃ b, data = some [b])) :
    readStored err data = none := by
  rcases data with _ | _ | ⟨b, _ | _⟩
  · rfl
  · rfl
  · exact if_neg fun h => hone ⟨h.1, b, rfl⟩
  · rfl

/-- A single read stores the value of its response, if its callback is set. -/
theorem KbdsClient.readProcess_keystates (err : Byte) (data : Data) (kbds : KbdsClient)
    {cb : ReadCb} (hcb : kbds.readCb = some cb) :
    (kbds.readProcess err data).1.keystates = (readStored err data).getD kbds.keystates := by
  rw [readProcess, hcb]
  dsimp only
  by_cases herr : err ≠ 0
  · rw [if_pos herr, readStored_of_not_one fun h => herr h.1]
    rfl
  · obtain rfl := not_not.mp herr
    rw [if_neg herr]
    rcases data with _ | _ | ⟨b, _ | _⟩
    · rfl
    · rfl
    · by_cases hmax : (b.setWidth 32 : Word) > btKbdsValMax
      · simp only [if_pos hmax, readStored_of_gt 0 hmax, Option.getD_none]
      · simp only [if_neg hmax, readStored_of_not_gt hmax, Option.getD_some]
    · rfl

/-- A periodic read stores the value of its response, if its callback is set. -/
theorem KbdsClient.periodicReadProcess_keystates (err : Byte) (data : Data) (kbds : KbdsClient)
    {cb : NotifyCb} (hcb : kbds.notifyCb = some cb) :
    (kbds.periodicReadProcess err data).1.keystates
      = (readStored err data).getD kbds.keystates := by
  rw [periodicReadProcess, hcb]
  dsimp only
  -- the next read is scheduled in any case, which changes no key state
  by_cases herr : err ≠ 0
  · rw [if_pos herr, readStored_of_not_one fun h => herr h.1]
    split <;> rfl
  · obtain rfl := not_not.mp herr
    rw [if_neg herr]
    rcases data with _ | _ | ⟨b, _ | _⟩ <;> dsimp only
    · split <;> rfl
    · split <;> rfl
    · by_cases hmax : (b.setWidth 32 : Word) > btKbdsValMax
      · simp only [if_pos hmax, readStored_of_gt 0 hmax]
        split <;> rfl
      · simp only [if_neg hmax, readStored_of_not_gt hmax]
        by_cases hnew : kbds.keystates ≠ b.setWidth 32
        · rw [if_pos hnew]
          split <;> rfl
        · rw [if_neg hnew]
          split <;> exact not_not.mp hnew
    · split <;> rfl

/-! ## The callbacks of `main.c` -/

/-- `read_keystates_cb`. -/
def readKeystatesCb (keystates : Word) (err : Int) (p : Poll) : Poll :=
  if err ≠ 0 then p else { p with lastKeystateLeft := keystates }

/-- What the callback of a read does to the words of the poll. The other callback
of `main.c`, `notify_keystates_cb`, only prints. -/
def invoke (reply : Option ReadReply) (p : Poll) : Poll :=
  match reply with
  | some ⟨.readKeystatesCb, keystates, err⟩ => readKeystatesCb keystates err p
  | _ => p

/-- `KBDS_READ_VALUE_INTERVAL`. -/
def kbdsReadValueInterval : Int := 10000

/-- `discovery_completed_cb`: assign the handles, subscribe or read periodically,
and read once. The error codes are those of `bt_gatt_subscribe` and
`bt_gatt_read`. -/
def discoveryCompletedCb (dm : KbdsClient.Discovery) (subscribeErr readErr : Int)
    (kbds : KbdsClient) : KbdsClient × List GattRequest :=
  let (_, kbds) := kbds.handlesAssign dm
  let (kbds, reqs) :=
    if kbds.notify then
      let (_, kbds, reqs) := kbds.subscribeKeystates .notifyKeystatesCb subscribeErr
      (kbds, reqs)
    else ((kbds.startPerReadKeystates kbdsReadValueInterval .notifyKeystatesCb).2, [])
  let (_, kbds, reqs') := kbds.readKeystates .readKeystatesCb readErr
  (kbds, reqs ++ reqs')

end BleKeyboard
