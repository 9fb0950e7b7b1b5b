import BleKeyboard.Firmware.Client

/-!
# The left half (`main.c` and `kbds.c` of the KBDS peripheral)

The left half scans its matrix in a loop, notifies the client of every word that
differs from the one before, and answers reads. `bt_gatt_notify` is not part of the
sources: its return code is an argument, and a notification goes out if it is 0.
-/

namespace BleKeyboard

open Base

/-- `EACCES`. -/
def eacces : Int := 13

/-- The variables of the left half: `app_keystate`, `button_state` of `main`,
`notify_enabled`, `keystate`, and whether `kbds_cb.button_cb` is set. -/
structure LeftHalf where
  appKeystate : Word
  buttonState : Word
  notifyEnabled : Bool
  keystate : Word
  buttonCb : Bool
  deriving DecidableEq, Repr

namespace LeftHalf

/-- The state in which `main` enters its loop. It has registered `app_button_cb` by
then; `button_state` is not initialised. -/
def init (buttonState : Word) : LeftHalf := ⟨0, buttonState, false, 0, true⟩

/-- `kbdslc_ccc_cfg_changed`. -/
def cccCfgChanged (value : BitVec 16) (s : LeftHalf) : LeftHalf :=
  { s with notifyEnabled := decide (value = btGattCccNotify) }

/-- `app_button_cb`. -/
def appButtonCb (s : LeftHalf) : Word := s.appKeystate

/-- `read_button`, with the data of the response: `sizeof(*value)` is the size of a
`char`, so it is the first byte of `keystate` in memory. -/
def readButton (s : LeftHalf) : LeftHalf × List Byte :=
  if s.buttonCb then
    let s := { s with keystate := s.appButtonCb }
    -- one byte of four
    (s, (toBytesLE s.keystate).take 1)
  else (s, [])

/-- `bt_kbds_send_keystate`, with the notification that goes out. -/
def sendKeystate (keystate : Word) (gattErr : Int) (s : LeftHalf) : Int × Option (List Byte) :=
  if !s.notifyEnabled then (-eacces, none)
  else (gattErr, if gattErr = 0 then some (toBytesLE keystate) else none)

/-- One turn of `main`'s loop, `button_state = get_keystate(button_state)`, with the
notification that goes out. -/
def getKeystate (pins : Pins) (gattErr : Int) (s : LeftHalf) : LeftHalf × Option (List Byte) :=
  let buttonState := readMatrix pins
  let hasChanged := buttonState ^^^ s.buttonState
  let s := { s with appKeystate := buttonState, buttonState }
  (s, if hasChanged ≠ 0 then (s.sendKeystate buttonState gattErr).2 else none)

/-- The scan differs from the one before, and the client is notified of it. -/
def Notifies (s : LeftHalf) (pins : Pins) (gattErr : Int) : Prop :=
  readMatrix pins ≠ s.buttonState ∧ s.notifyEnabled = true ∧ gattErr = 0

instance (s : LeftHalf) (pins : Pins) (gattErr : Int) : Decidable (s.Notifies pins gattErr) :=
  inferInstanceAs (Decidable (_ ∧ _))

/-- A scan stores its word, and sends it if it notifies. -/
theorem getKeystate_eq (pins : Pins) (gattErr : Int) (s : LeftHalf) :
    s.getKeystate pins gattErr =
      ({ s with appKeystate := readMatrix pins, buttonState := readMatrix pins },
        if s.Notifies pins gattErr then some (toBytesLE (readMatrix pins)) else none) := by
  have hchanged : readMatrix pins ^^^ s.buttonState ≠ 0 ↔ readMatrix pins ≠ s.buttonState :=
    not_congr BitVec.xor_eq_zero_iff
  simp only [getKeystate, sendKeystate, hchanged]
  by_cases hne : readMatrix pins ≠ s.buttonState
  · rw [if_pos hne]
    cases hen : s.notifyEnabled with
    | false =>
      rw [if_neg fun h : s.Notifies pins gattErr => Bool.false_ne_true (hen.symm.trans h.2.1)]
      rfl
    | true =>
      by_cases herr : gattErr = 0
      · rw [if_pos (show s.Notifies pins gattErr from ⟨hne, hen, herr⟩), if_pos herr]
        rfl
      · rw [if_neg fun h : s.Notifies pins gattErr => herr h.2.2, if_neg herr]
        rfl
  · rw [if_neg hne, if_neg fun h : s.Notifies pins gattErr => hne h.1]

end LeftHalf

end BleKeyboard
