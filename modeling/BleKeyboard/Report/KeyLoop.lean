import BleKeyboard.Firmware.Step
import BleKeyboard.Report.HeldKeys

/-!
# The main loop while it reports keys

As long as a host is connected and the keyboard is not in pairing mode, a turn
of the main loop depends on three inputs only: the connection table, the left
word the client holds at the poll, and the pin readings of the scan. `keyLoop` is
the machine of these turns; `run_keyLoop` ties it to the firmware.

`callKeyReport_holds` is the step of every run argument below: if releases carry
the codes of their presses and there is room, a turn keeps the slot table equal
to the bag of held keys.
-/

namespace BleKeyboard

open Base
open Base.Edge

universe u

/-- What a turn of the main loop depends on. -/
structure Frame where
  modes : ConnModes
  keystates : Word
  pins : Pins

/-- What a turn of the main loop changes. -/
structure KeyState where
  poll : Poll
  hid : Except Fault Hid

/-- The first branch of the main loop. -/
def keyTurn (sendErr : Nat → Int) (s : KeyState) (f : Frame) : KeyState :=
  let (poll, hid) := callKeyReport sendErr f.modes f.keystates s.poll s.hid
  ⟨poll.scanned f.pins, hid⟩

/-- The turns of the main loop from the all-zero state. -/
def keyLoop (sendErr : Nat → Int) : Machine KeyState Frame where
  init := ⟨.zero, .ok ⟨.zero, []⟩⟩
  step s f := some (keyTurn sendErr s f)

/-! ## Reporting turns of the firmware -/

namespace Firmware

variable {κ : Type u} {sendErr : Nat → Int}

/-- What a turn of the main loop sees. -/
def frame (fw : Firmware κ) : Event κ → Option Frame
  | .turn pins => some ⟨fw.connMode, fw.kbds.keystates, pins⟩
  | _ => none

/-- What the turns of a run see. -/
def frames (sendErr : Nat → Int) : Firmware κ → List (Event κ) → List Frame
  | _, [] => []
  | fw, e :: es =>
    (fw.frame e).toList ++
      match fw.step sendErr e with
      | some fw' => frames sendErr fw' es
      | none => []

/-- A turn reports, and a read response leaves the words of the poll alone. -/
def OnlyReports (fw : Firmware κ) : Event κ → Prop
  | .turn _ => fw.reporting = true
  | .readResponse err data => invoke (fw.kbds.readProcess err data).2 fw.poll = fw.poll
  | _ => True

/-- One event: a turn is a turn of `keyLoop`, and nothing else moves its state. -/
theorem step_keyLoop {fw fw' : Firmware κ} {e : Event κ} (hrep : fw.OnlyReports e)
    (hstep : Stepped sendErr fw e fw') :
    (keyLoop sendErr).runFrom ⟨fw.poll, fw.hid⟩ (fw.frame e).toList
      = some ⟨fw'.poll, fw'.hid⟩ := by
  rw [hstep.poll, hstep.hid]
  cases e with
  | turn pins =>
    have hrep : fw.reporting = true := hrep
    rw [nextPoll, polled, nextHid, if_pos hrep, if_pos hrep]
    rfl
  | readResponse err data =>
    rw [nextPoll, show invoke (fw.kbds.readProcess err data).2 fw.poll = fw.poll from hrep]
    rfl
  | _ => rfl

/-- **Reporting runs**: while all turns report, a run of the firmware does to the words
of the poll and the keyboard state what `keyLoop` does with the frames of its turns. -/
theorem run_keyLoop {fw fw' : Firmware κ} {es : List (Event κ)}
    (hrep : (firmware κ sendErr).AlongFrom (fun fw e _ => fw.OnlyReports e) fw es)
    (hrun : (firmware κ sendErr).runFrom fw es = some fw') :
    (keyLoop sendErr).runFrom ⟨fw.poll, fw.hid⟩ (fw.frames sendErr es)
      = some ⟨fw'.poll, fw'.hid⟩ := by
  induction es generalizing fw with
  | nil =>
    obtain rfl := Option.some.inj hrun
    rfl
  | cons e es ih =>
    obtain ⟨next, hnext, hrest⟩ := Option.bind_eq_some_iff.mp hrun
    obtain ⟨hone, htail⟩ := Machine.alongFrom_cons.mp hrep next hnext
    have hstep : fw.step sendErr e = some next := hnext
    rw [frames, hstep, Machine.runFrom_append, step_keyLoop hone (stepped hstep)]
    exact ih htail hrest

end Firmware

/-! ## Held keys, call by call -/

/-- The keyboard state is intact and its slot table holds the held keys. -/
def Holds (h : History) (hid : Except Fault Hid) : Prop :=
  ∃ hid', hid = .ok hid' ∧ hid'.kbd.keys = heldCodes h

/-- The keyboard state is intact and its slots are all zero. -/
def SlotsZero (hid : Except Fault Hid) : Prop :=
  ∃ hid', hid = .ok hid' ∧ ∀ i (hi : i < keyPressMax), hid'.kbd.keysState[i] = 0

instance : ∀ hid, Decidable (SlotsZero hid)
  | .ok hid' => decidable_of_iff (∀ i (hi : i < keyPressMax), hid'.kbd.keysState[i] = 0)
      (by simp [SlotsZero])
  | .error _ => .isFalse (by simp [SlotsZero])

theorem holds_nil : Holds [] (.ok ⟨.zero, []⟩) := by
  refine ⟨_, rfl, ?_⟩
  rw [heldCodes_nil]
  decide

/-- A table that holds no key is all zero. -/
theorem Holds.slotsZero {h : History} {hid : Except Fault Hid} (hh : Holds h hid)
    (hup : ∀ p ∈ plainPositions, pressed h p = false) : SlotsZero hid := by
  obtain ⟨hid', hok, hkeys⟩ := hh
  refine ⟨hid', hok, bag_eq_zero_iff.mp ?_⟩
  show hid'.kbd.keys = 0
  rw [hkeys, heldCodes_eq_zero hup]

section

variable (sendErr : Nat → Int) (modes : ConnModes) {h : History} {p : Poll}
  {hid : Except Fault Hid}

/-- `call_key_report` carries held keys to held keys. -/
theorem callKeyReport_yields {keystates : Word} {hid₀ : Hid}
    (hkeys : hid₀.kbd.keys = heldCodes h) (halt : Alternates (h ++ p.edges keystates))
    (hmatch : ReleasesMatch (· ∈ plainPositions) (h ++ p.edges keystates))
    (hroom : Room h (p.edges keystates)) :
    Yields (p.selectLayer keystates) (p.calls keystates) hid₀
      (callKeyReport sendErr modes keystates p (.ok hid₀)).2
      (heldCodes (h ++ p.edges keystates)) :=
  createReports_refines sendErr modes (p.selectLayer keystates)
    (fun _ hc => p.position_lt_of_mem_calls hc) hkeys halt hmatch hroom

theorem callKeyReport_holds {keystates : Word} (hh : Holds h hid)
    (halt : Alternates (h ++ p.edges keystates))
    (hmatch : ReleasesMatch (· ∈ plainPositions) (h ++ p.edges keystates))
    (hroom : Room h (p.edges keystates)) :
    Holds (h ++ p.edges keystates) (callKeyReport sendErr modes keystates p hid).2 := by
  obtain ⟨hid₀, rfl, hkeys⟩ := hh
  obtain ⟨hid', hok, hkeys', -⟩ := callKeyReport_yields sendErr modes hkeys halt hmatch hroom
  exact ⟨hid', hok, hkeys'⟩

/-- There is room if at most six plain switches are down at each stage of the
call. -/
theorem InStep.room (hin : InStep h p) {keystates : Word}
    (hsix : ∀ k ≤ 48, (plainPositions.filter fun q =>
      stage p.shown (p.seen keystates) k q = true).card ≤ keyPressMax) :
    Room h (p.edges keystates) := by
  intro pre hpre
  -- a prefix of the edges is what the first `k` switches contribute
  obtain ⟨k, hk, rfl⟩ : ∃ k ≤ 48, pre = edges (p.selectLayer keystates)
      ((List.range k).filterMap (p.callAt keystates)) := by
    unfold Poll.edges edges at hpre
    rw [p.calls_eq, List.map_filterMap] at hpre
    obtain ⟨l, hl, rfl⟩ := List.prefix_filterMap_iff.mp hpre
    have hlen : l.length ≤ 48 := by simpa using hl.length_le
    have htake : l = List.range l.length := by
      conv_lhs => rw [List.prefix_iff_eq_take.mp hl, List.take_range, Nat.min_eq_left hlen]
    refine ⟨l.length, hlen, ?_⟩
    rw [edges, List.map_filterMap, ← htake]
  refine (Finset.card_le_card fun q hq => ?_).trans (hsix k hk)
  obtain ⟨hS, hdown⟩ := mem_held.mp hq
  rw [hin.pressed_stage keystates k (mem_plainPositions.mp hS).1] at hdown
  exact Finset.mem_filter.mpr ⟨hS, hdown⟩

end

end BleKeyboard
