import BleKeyboard.Firmware.LeftHalf
import BleKeyboard.Report.Dispatch

/-!
# One left word, three encodings

The left half sends its word as it is in a notification, and its first byte in the response
to a read. The client takes a notification as it comes, and a read only if its one byte is at
most `BT_KBDS_VAL_MAX`: both reads were written for a battery level.

- `ways_agree_iff`: the three ways agree on the words up to `BT_KBDS_VAL_MAX`, and on a word
  whose read is refused if the client has it already;
- `known_iff`: the call after a notification takes the word as known, unless it is the value
  that stands for none.
-/

namespace BleKeyboard

open Base

/-! ## The value of each way -/

/-- The left half has the word `S`, and the client has subscribed. -/
def LeftHalf.holding (S : Word) (s : LeftHalf) : LeftHalf :=
  { s with appKeystate := S, notifyEnabled := true, buttonCb := true }

/-- The client has its callbacks set. -/
def KbdsClient.listening (f : NotifyCb) (g : ReadCb) (kbds : KbdsClient) : KbdsClient :=
  { kbds with notifyCb := some f, readCb := some g }

/-- A notification, the response to a read and that to a periodic read all leave the word
`S` in `kbds->keystates`. -/
structure WaysAgree (S : Word) (s : LeftHalf) (kbds : KbdsClient) : Prop where
  notified : (kbds.notifyProcess (s.sendKeystate S 0).2).map (·.1.keystates) = some S
  read : (kbds.readProcess 0 (some s.readButton.2)).1.keystates = S
  periodicRead : (kbds.periodicReadProcess 0 (some s.readButton.2)).1.keystates = S

/-- A read gets the word back if it fits, or if it is there and the read is refused. -/
theorem readStored_getD_eq_iff (S old : Word) :
    (readStored 0 (some [S.extractLsb' 0 8])).getD old = S ↔
      S ≤ btKbdsValMax ∨ S.toNat % 256 > btKbdsValMax.toNat ∧ old = S := by
  have hbyte : ((S.extractLsb' 0 8).setWidth 32 : Word).toNat = S.toNat % 256 := by
    rw [BitVec.toNat_setWidth, BitVec.extractLsb'_toNat, Nat.shiftRight_zero]
    omega
  have hlow : (S.extractLsb' 0 8).setWidth 32 = S ↔ S.toNat < 256 := by
    rw [← BitVec.toNat_inj, hbyte]
    omega
  have hmax : btKbdsValMax.toNat = 100 := rfl
  have hle : S ≤ btKbdsValMax ↔ S.toNat ≤ btKbdsValMax.toNat := BitVec.le_def
  have hgt : ((S.extractLsb' 0 8).setWidth 32 : Word) > btKbdsValMax ↔
      S.toNat % 256 > btKbdsValMax.toNat := by
    rw [gt_iff_lt, BitVec.lt_def, hbyte]
  rw [hle]
  by_cases hlarge : ((S.extractLsb' 0 8).setWidth 32 : Word) > btKbdsValMax
  · have hbig := hgt.mp hlarge
    rw [readStored_of_gt 0 hlarge, Option.getD_none]
    constructor
    · intro h
      exact .inr ⟨hbig, h⟩
    · rintro (h | ⟨-, h⟩)
      · omega
      · exact h
  · have hfits := mt hgt.mpr hlarge
    rw [readStored_of_not_gt hlarge, Option.getD_some, hlow]
    constructor
    · intro h
      left
      omega
    · rintro (h | ⟨h, -⟩)
      · omega
      · exact absurd h hfits

/-- **The three ways agree** exactly on the words up to `BT_KBDS_VAL_MAX`, and on a word with
a larger first byte if the client has it already. -/
theorem ways_agree_iff (S : Word) (s : LeftHalf) (kbds : KbdsClient) (f : NotifyCb) (g : ReadCb) :
    WaysAgree S (s.holding S) (kbds.listening f g) ↔
      S ≤ btKbdsValMax ∨ S.toNat % 256 > btKbdsValMax.toNat ∧ kbds.keystates = S := by
  rw [← readStored_getD_eq_iff]
  have hread : (s.holding S).readButton.2 = [S.extractLsb' 0 8] := rfl
  constructor
  · intro h
    have hkept := h.read
    rw [hread, KbdsClient.readProcess_keystates _ _ _ rfl] at hkept
    exact hkept
  · intro h
    refine ⟨?_, ?_, ?_⟩
    · have hsent : ((s.holding S).sendKeystate S 0).2 = some (toBytesLE S) := rfl
      rw [hsent, KbdsClient.notifyProcess_toBytesLE]
      rfl
    · rw [hread, KbdsClient.readProcess_keystates _ _ _ rfl]
      exact h
    · rw [hread, KbdsClient.periodicReadProcess_keystates _ _ _ rfl]
      exact h

/-- One switch, at position 8: a read says that none is pressed. -/
theorem read_loses_switch : ¬WaysAgree 0x100 ((LeftHalf.init 0).holding 0x100)
    (KbdsClient.clientInit.listening .notifyKeystatesCb .readKeystatesCb) := by
  intro h
  exact absurd h.read (by decide)

/-! ## The sentinel -/

/-- A call that has returned has taken the left half's word `S` as known: it has dispatched
what differs from the word before, and goes on from `S`. -/
def InCall.Knows (poll : Poll) (S : Word) (t : InCall) : Prop :=
  t.calls = dispatched (S ^^^ poll.lastKeystateLeft) S true
      ++ dispatched poll.rightKeystateChange poll.lastKeystateRight false ∧
    t.poll.lastKeystateLeft = S

/-- A word is known, unless it is the sentinel and the last one was not. -/
theorem InCall.knows_iff {poll : Poll} {S : Word} {t : InCall} (hcalls : t.calls = poll.dispatch S)
    (hlast : t.poll.lastKeystateLeft = if S ≠ noKeystates then S else poll.lastKeystateLeft) :
    t.Knows poll S ↔ S ≠ noKeystates ∨ poll.lastKeystateLeft = noKeystates := by
  rw [Knows, hcalls, hlast, Poll.dispatch]
  by_cases hS : S ≠ noKeystates
  · rw [if_pos hS, if_pos hS]
    exact iff_of_true ⟨rfl, rfl⟩ (.inl hS)
  · obtain rfl := not_not.mp hS
    rw [if_neg hS, if_neg hS, or_iff_right hS]
    constructor
    · exact And.right
    · intro hsame
      rw [hsame]
      -- then there is nothing to dispatch
      exact ⟨rfl, rfl⟩

/-- **The sentinel shadows one word**: after a notification of the left half's scan, a call
takes the word as known exactly if it is not `BT_KBDS_VAL_INVALID`, or was the last word. -/
theorem known_iff {s : LeftHalf} {pins : Pins} {gattErr : Int} {bytes : List Byte}
    (hsent : (s.getKeystate pins gattErr).2 = some bytes) (sendErr : Nat → Int) (modes : ConnModes)
    (kbds : KbdsClient) (poll : Poll) (hasChanged : Word) (hid : Except Fault Hid) :
    ∃ r n t, kbds.notifyProcess (some bytes) = some r ∧
      (inCall sendErr modes r.1 poll hasChanged hid).run (List.replicate n .step) = some t ∧
      t.pc = .done ∧
      (t.Knows poll (readMatrix pins) ↔
        readMatrix pins ≠ btKbdsValInvalid ∨ poll.lastKeystateLeft = btKbdsValInvalid) := by
  have hbytes : bytes = toBytesLE (readMatrix pins) := by
    rw [LeftHalf.getKeystate_eq] at hsent
    obtain ⟨-, hsent⟩ := Option.ite_none_right_eq_some.mp hsent
    exact (Option.some.inj hsent).symm
  obtain ⟨n, t, hrun, hpc, hcalls, hpoll⟩ :=
    quiet_dispatch sendErr modes { kbds with keystates := readMatrix pins } poll hasChanged hid
  rw [hbytes]
  refine ⟨_, n, t, kbds.notifyProcess_toBytesLE _, hrun, hpc, InCall.knows_iff hcalls ?_⟩
  rw [hpoll, Poll.reported]

/-- Three switches are pressed. -/
theorem known_three_switches :
    let modes : ConnModes := Vector.replicate hidsMaxClientCount ⟨none, false⟩
    ∃ r n t, KbdsClient.clientInit.notifyProcess (some [7, 0, 0, 0]) = some r ∧
      (inCall (fun _ => 0) modes r.1 .zero 0 (.ok ⟨.zero, []⟩)).run (List.replicate n .step)
        = some t ∧
      t.pc = .done ∧
      (t.Knows .zero (readMatrix (pinsOf 7)) ↔ readMatrix (pinsOf 7) ≠ btKbdsValInvalid ∨
        Poll.zero.lastKeystateLeft = btKbdsValInvalid) := by
  have hsent : ({ LeftHalf.init 0 with notifyEnabled := true }.getKeystate (pinsOf 7) 0).2
      = some [7, 0, 0, 0] := by decide +kernel
  exact known_iff hsent _ _ _ _ _ _

/-- The switches at positions 0 to 7 are pressed: the client is notified of them,
and the call after that does not see them. -/
theorem eight_switches_ignored :
    let modes : ConnModes := Vector.replicate hidsMaxClientCount ⟨none, false⟩
    ({ LeftHalf.init 0 with notifyEnabled := true }.getKeystate (pinsOf 0xff) 0).2
      = some [0xff, 0, 0, 0] ∧
    ∃ r n t, KbdsClient.clientInit.notifyProcess (some [0xff, 0, 0, 0]) = some r ∧
      (inCall (fun _ => 0) modes r.1 .zero 0 (.ok ⟨.zero, []⟩)).run (List.replicate n .step)
        = some t ∧
      t.pc = .done ∧ ¬t.Knows .zero 0xff := by
  intro modes
  refine ⟨by decide +kernel, ?_⟩
  obtain ⟨n, t, hrun, hpc, -, hpoll⟩ :=
    quiet_dispatch (fun _ => 0) modes { KbdsClient.clientInit with keystates := 0xff } .zero 0
      (.ok ⟨.zero, []⟩)
  refine ⟨({ KbdsClient.clientInit with keystates := 0xff }, none), n, t, rfl, hrun, hpc, ?_⟩
  rintro ⟨-, hlast⟩
  rw [hpoll] at hlast
  exact absurd hlast (by decide)

end BleKeyboard
