import BleKeyboard.Firmware.Client

/-!
# Payloads that are no value

The header says what the callbacks are told of a payload that is no key state:
`BT_KBDS_VAL_INVALID` for a notification, an error for a read. The checks that would do so in
`notify_process` are commented out, and `read_process` reports a value above
`BT_KBDS_VAL_MAX` with the error of the read, which is 0.

- `notify_parsed_iff`: a notification is taken as the header says exactly if it has 4 bytes;
- `read_reported_iff`: a response is reported as the header says exactly if it is not a value
  above `BT_KBDS_VAL_MAX`.
-/

namespace BleKeyboard

open Base

/-! ## Notifications -/

/-- `BT_GATT_ITER_STOP`. -/
def btGattIterStop : Byte := 0

/-- `BT_GATT_ITER_CONTINUE`. -/
def btGattIterContinue : Byte := 1

namespace KbdsClient

/-- `notify_process` with its return value, which does not depend on the data. -/
def notifyProcessIter (data : Data) (kbds : KbdsClient) :
    Option (KbdsClient × Option NotifyReply × Byte) :=
  (kbds.notifyProcess data).map fun r => (r.1, r.2, btGattIterContinue)

/-- What `notify_process` is to do: store and pass on a word of 4 bytes, and take anything
else as the end of the notifications. -/
def notifyParsed (data : Data) (kbds : KbdsClient) : KbdsClient × Option NotifyReply × Byte :=
  match data with
  | some [b0, b1, b2, b3] =>
    let keystates := b3 ++ b2 ++ b1 ++ b0
    ({ kbds with keystates }, kbds.notifyCb.map fun cb => ⟨cb, keystates⟩, btGattIterContinue)
  | _ => (kbds, kbds.notifyCb.map fun cb => ⟨cb, btKbdsValInvalid⟩, btGattIterStop)

/-- **Notifications are parsed safely** exactly if there are data, of 4 bytes. -/
theorem notify_parsed_iff (data : Data) (kbds : KbdsClient) :
    kbds.notifyProcessIter data = some (kbds.notifyParsed data) ↔
      ∃ bytes, data = some bytes ∧ bytes.length = 4 := by
  -- through NULL nothing can be read, and fewer than 4 bytes are read past their end
  have hnone : ∀ data : Data, loadWord data = none → (∀ bytes, data = some bytes →
      bytes.length ≠ 4) → (kbds.notifyProcessIter data = some (kbds.notifyParsed data) ↔
        ∃ bytes, data = some bytes ∧ bytes.length = 4) := by
    intro data hload hlength
    rw [notifyProcessIter, notifyProcess, hload]
    refine iff_of_false (Option.some_ne_none _).symm ?_
    rintro ⟨bytes, hdata, hfour⟩
    exact hlength bytes hdata hfour
  rcases data with _ | _ | ⟨b0, _ | ⟨b1, _ | ⟨b2, _ | ⟨b3, _ | ⟨b4, bs⟩⟩⟩⟩⟩
  · exact hnone none rfl fun bytes hdata => absurd hdata (Option.some_ne_none bytes).symm
  · exact hnone (some []) rfl (by simp)
  · exact hnone (some [b0]) rfl (by simp)
  · exact hnone (some [b0, b1]) rfl (by simp)
  · exact hnone (some [b0, b1, b2]) rfl (by simp)
  · exact iff_of_true rfl ⟨_, rfl, rfl⟩
  · -- more than 4 are taken for a word, and the notifications go on
    refine iff_of_false ?_ (by simp)
    intro h
    have hiter : btGattIterContinue = btGattIterStop :=
      congrArg (fun r => r.2.2) (Option.some.inj h)
    exact absurd hiter (by decide)

end KbdsClient

/-- The link drops, and the stack passes no data: the word is read through `NULL`. -/
theorem notify_reads_null : KbdsClient.clientInit.notifyProcessIter none
    ≠ some (KbdsClient.clientInit.notifyParsed none) := by
  intro h
  cases h

/-! ## Reads -/

/-- A response is reported as it is: a value is stored by the client and by
`read_keystates_cb`; for anything else the callback is told an error, and neither changes. -/
def ReadReported (err : Byte) (data : Data) (kbds : KbdsClient) (poll : Poll) : Prop :=
  let r := kbds.readProcess err data
  match readStored err data with
  | some value => r.1.keystates = value ∧ (invoke r.2 poll).lastKeystateLeft = value
  | none => (∃ reply, r.2 = some reply ∧ reply.err ≠ 0) ∧ r.1.keystates = kbds.keystates ∧
      (invoke r.2 poll).lastKeystateLeft = poll.lastKeystateLeft

/-- An error code other than 0 tells the callback of a failure. -/
theorem readReported_of_failed {err : Byte} {data : Data} (herr : (readResult err data).2 ≠ 0)
    (kbds : KbdsClient) (poll : Poll) :
    ReadReported err data { kbds with readCb := some .readKeystatesCb } poll := by
  have hnone := readStored_of_not_one (mt (readResult_eq_zero_iff err data).mpr herr)
  have hreply := KbdsClient.readProcess_reply err data { kbds with readCb := some .readKeystatesCb }
  have hkept := KbdsClient.readProcess_keystates err data
    { kbds with readCb := some .readKeystatesCb } rfl
  rw [hnone, Option.getD_none] at hkept
  rw [ReadReported, hnone]
  refine ⟨⟨_, hreply, herr⟩, hkept, ?_⟩
  rw [hreply]
  show (readKeystatesCb _ _ poll).lastKeystateLeft = _
  rw [readKeystatesCb, if_pos herr]

/-- A value is stored on both sides. -/
theorem readReported_of_value {b : Byte} (hmax : ¬(b.setWidth 32 : Word) > btKbdsValMax)
    (kbds : KbdsClient) (poll : Poll) :
    ReadReported 0 (some [b]) { kbds with readCb := some .readKeystatesCb } poll := by
  have hreply := KbdsClient.readProcess_reply 0 (some [b])
    { kbds with readCb := some .readKeystatesCb }
  have hkept := KbdsClient.readProcess_keystates 0 (some [b])
    { kbds with readCb := some .readKeystatesCb } rfl
  rw [readStored_of_not_gt hmax, Option.getD_some] at hkept
  rw [ReadReported, readStored_of_not_gt hmax]
  refine ⟨hkept, ?_⟩
  rw [hreply]
  exact if_neg hmax

/-- The callback is told of a value above the maximum with the error of the read, 0. -/
theorem not_readReported_of_gt {b : Byte} (hmax : (b.setWidth 32 : Word) > btKbdsValMax)
    (kbds : KbdsClient) (poll : Poll) :
    ¬ReadReported 0 (some [b]) { kbds with readCb := some .readKeystatesCb } poll := by
  intro h
  have hreply := KbdsClient.readProcess_reply 0 (some [b])
    { kbds with readCb := some .readKeystatesCb }
  rw [ReadReported, readStored_of_gt 0 hmax] at h
  obtain ⟨⟨reply, hr, hne⟩, -⟩ := h
  obtain rfl := Option.some.inj (hreply.symm.trans hr)
  exact hne rfl

/-- **A read is reported as it is**, exactly if it did not succeed with one byte above
`BT_KBDS_VAL_MAX`. -/
theorem read_reported_iff (err : Byte) (data : Data) (kbds : KbdsClient) (poll : Poll) :
    ReadReported err data { kbds with readCb := some .readKeystatesCb } poll ↔
      ¬(err = 0 ∧ ∃ b : Byte, data = some [b] ∧ (b.setWidth 32 : Word) > btKbdsValMax) := by
  by_cases hone : err = 0 ∧ ∃ b, data = some [b]
  · obtain ⟨rfl, b, rfl⟩ := hone
    by_cases hmax : (b.setWidth 32 : Word) > btKbdsValMax
    · refine iff_of_false (not_readReported_of_gt hmax kbds poll) ?_
      exact not_not.mpr ⟨rfl, b, rfl, hmax⟩
    · refine iff_of_true (readReported_of_value hmax kbds poll) ?_
      rintro ⟨-, c, hc, hgt⟩
      obtain ⟨rfl, -⟩ := List.cons.inj (Option.some.inj hc)
      exact hmax hgt
  · refine iff_of_true (readReported_of_failed (mt (readResult_eq_zero_iff err data).mp hone) kbds
      poll) ?_
    rintro ⟨herr, b, hb, -⟩
    exact hone ⟨herr, b, hb⟩

/-- A read of the byte 200: `last_keystate_left` becomes `BT_KBDS_VAL_INVALID`. -/
theorem read_reports_invalid : ¬ReadReported 0 (some [200])
    { KbdsClient.clientInit with readCb := some .readKeystatesCb } .zero := by
  rintro ⟨⟨reply, hr, hne⟩, -⟩
  obtain rfl := Option.some.inj hr
  exact hne rfl

end BleKeyboard
