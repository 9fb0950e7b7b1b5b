import BleKeyboard.Firmware.InCall

/-!
# What one call dispatches

Both loops of `call_key_report` count from 0 to 24 and look at the switch below their count,
so the first turn looks at no switch. What they dispatch is stated here without loops:
`dispatched` takes the changed switches of a half in the order of their positions.

`call_dispatches`: a call makes exactly these calls of `create_report`, the left half first,
and moves `last_keystate_left` on; the left half is left out if its word is the sentinel.
-/

namespace BleKeyboard

open Base

/-! ## One half -/

/-- The edges of the switches in `changed`, in the order of their positions, each in the
direction that `word` says. -/
def dispatched (changed word : Word) (lOrR : Bool) : List Call :=
  ((List.range 24).filter changed.getLsbD).map fun p => ⟨word.getLsbD p, lOrR, p⟩

/-- The positions increase, so none comes twice. -/
theorem dispatched_pairwise (changed word : Word) (lOrR : Bool) :
    (dispatched changed word lOrR).Pairwise fun c d => c.position < d.position := by
  rw [dispatched, List.pairwise_map]
  exact List.pairwise_lt_range.filter _

/-- The loop and its description agree. -/
theorem scanChanges_eq_dispatched (changed word : Word) (lOrR : Bool) :
    scanChanges changed word lOrR = dispatched changed word lOrR := by
  rw [scanChanges_eq, dispatched, ← List.filterMap_eq_filter, List.map_filterMap]
  refine List.filterMap_congr ?_
  intro p _
  cases h : changed.getLsbD p <;> simp [h, Option.guard]

/-! ## One call -/

namespace Poll

/-- What a call is to dispatch: the left half, unless its word is the sentinel, then the
right half. -/
def dispatch (keystates : Word) (p : Poll) : List Call :=
  (if keystates ≠ noKeystates then dispatched (keystates ^^^ p.lastKeystateLeft) keystates true
    else []) ++
  dispatched p.rightKeystateChange p.lastKeystateRight false

theorem calls_eq_dispatch (keystates : Word) (p : Poll) :
    p.calls keystates = p.dispatch keystates := by
  rw [calls, leftCalls, rightCalls, dispatch, scanChanges_eq_dispatched, scanChanges_eq_dispatched]

end Poll

/-- A call that is left alone returns, having dispatched both halves. -/
theorem quiet_dispatch (sendErr : Nat → Int) (modes : ConnModes) (kbds : KbdsClient) (poll : Poll)
    (hasChanged : Word) (hid : Except Fault Hid) :
    ∃ n s, (inCall sendErr modes kbds poll hasChanged hid).run (List.replicate n .step) = some s ∧
      s.pc = .done ∧ s.calls = poll.dispatch kbds.keystates ∧
      s.poll = poll.reported kbds.keystates := by
  obtain ⟨n, s, hrun, hpc, hcalls, hcall⟩ := quiet_call sendErr modes kbds poll hasChanged hid
  exact ⟨n, s, hrun, hpc, hcalls.trans (poll.calls_eq_dispatch _), congrArg Prod.fst hcall⟩

/-- **Edge dispatch is exact**: a call that is left alone returns, having called
`create_report` for the changed switches of the left half, then for those of the right half,
each once and in order, with `last_keystate_left` at the word it has dispatched; with the
sentinel as left word it calls it for the right half only, and keeps `last_keystate_left`. -/
theorem call_dispatches (sendErr : Nat → Int) (modes : ConnModes) (kbds : KbdsClient) (poll : Poll)
    (hasChanged : Word) (hid : Except Fault Hid) :
    ∃ n s, (inCall sendErr modes kbds poll hasChanged hid).run (List.replicate n .step) = some s ∧
      s.pc = .done ∧ s.calls = poll.dispatch kbds.keystates ∧
      s.poll.lastKeystateLeft =
        if kbds.keystates ≠ noKeystates then kbds.keystates else poll.lastKeystateLeft := by
  obtain ⟨n, s, hrun, hpc, hcalls, hpoll⟩ := quiet_dispatch sendErr modes kbds poll hasChanged hid
  refine ⟨n, s, hrun, hpc, hcalls, ?_⟩
  rw [hpoll, Poll.reported]

/-- Left positions 0 and 3 change, 3 is released; right positions 1 and 23 are pressed. -/
example : (Poll.mk 0x8 0x800002 0 0x800002 0).calls 0x1
    = [⟨true, true, 0⟩, ⟨false, true, 3⟩, ⟨true, false, 1⟩, ⟨true, false, 23⟩] := by decide +kernel

end BleKeyboard
