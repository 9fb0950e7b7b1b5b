import BleKeyboard.Firmware.Step
import BleKeyboard.Report.SlotTable

/-!
# Which slot calls stay inside the table

The search loops of `hid_kbd_state_key_set` and `hid_kbd_state_key_clear` are bounded
by `KEY_CTRL_CODE_MAX` instead of `KEY_PRESS_MAX`, so the only thing that stops one
inside the table is finding what it looks for. `SlotCall.Finds` says when it does.

- `SlotCall.safe_iff_finds`: a call is safe (stays inside the table, and reports a
  full table or an absent key without touching anything) exactly when its search
  finds its byte.
- `slot_calls_safe_iff_finds`: the same for all calls of a run of the firmware; and
  these are exactly the runs on which the keyboard state stays intact.
-/

namespace BleKeyboard

open Base

universe u

/-- A call of `hid_kbd_state_key_set` (`down`) or `hid_kbd_state_key_clear`, with the
state it finds. -/
structure SlotCall where
  down : Bool
  key : Byte
  st : KeyboardState

namespace SlotCall

/-- What the call returns. -/
def run (s : SlotCall) : Except Fault (Int × KeyboardState) := slotCall s.down s.key s.st

/-- The byte its search looks for. -/
def sought (s : SlotCall) : Byte := if s.down then 0 else s.key

/-- The key is a control key, or its search finds its byte. -/
def Finds (s : SlotCall) : Prop :=
  buttonCtrlCode s.key ≠ 0 ∨ s.sought ∈ s.st.keysState.toList

/-- The call reads and writes inside the table; a set call that finds no free slot
returns `-EBUSY`, a clear call whose key is in no slot `-EINVAL`, and neither changes
anything. -/
structure Safe (s : SlotCall) : Prop where
  inBounds : s.run.isOk = true
  notFound : buttonCtrlCode s.key = 0 → s.sought ∉ s.st.keysState.toList →
    s.run = .ok (if s.down then -ebusy else -einval, s.st)

instance (s : SlotCall) : Decidable s.Finds := inferInstanceAs (Decidable (_ ∨ _))

instance (s : SlotCall) : Decidable s.Safe :=
  decidable_of_iff (s.run.isOk = true ∧
      (buttonCtrlCode s.key = 0 → s.sought ∉ s.st.keysState.toList →
        s.run = .ok (if s.down then -ebusy else -einval, s.st)))
    ⟨fun h => ⟨h.1, h.2⟩, fun h => ⟨h.inBounds, h.notFound⟩⟩

/-- The search of a call that does not find its byte leaves the table. -/
theorem run_of_not_finds {s : SlotCall} (h : ¬s.Finds) :
    s.run = .error (.keysState keyPressMax) := by
  obtain ⟨down, key, st⟩ := s
  rw [Finds, not_or, not_not] at h
  obtain ⟨hctrl, hsought⟩ := h
  cases down with
  | true => exact keySet_of_not_mem hctrl hsought
  | false => exact keyClear_of_not_mem hctrl hsought

theorem isOk_of_finds {s : SlotCall} (h : s.Finds) : s.run.isOk = true := by
  obtain ⟨down, key, st⟩ := s
  by_cases hctrl : buttonCtrlCode key = 0
  · have hsought := h.resolve_left (not_not.mpr hctrl)
    cases down with
    | true =>
      obtain ⟨i, hi, -, hset⟩ := keySet_of_mem hctrl hsought
      show (hidKbdStateKeySet key st).isOk = true
      rw [hset]
      rfl
    | false =>
      obtain ⟨i, hi, -, hclear⟩ := keyClear_of_mem hctrl hsought
      show (hidKbdStateKeyClear key st).isOk = true
      rw [hclear]
      rfl
  · -- a control key never reaches the search
    cases down with
    | true =>
      show (hidKbdStateKeySet key st).isOk = true
      rw [hidKbdStateKeySet, if_pos hctrl]
      rfl
    | false =>
      show (hidKbdStateKeyClear key st).isOk = true
      rw [hidKbdStateKeyClear, if_pos hctrl]
      rfl

theorem isOk_iff_finds {s : SlotCall} : s.run.isOk = true ↔ s.Finds := by
  refine ⟨?_, isOk_of_finds⟩
  intro hok
  by_contra h
  rw [run_of_not_finds h] at hok
  cases hok

/-- **Exactness of one call**. -/
theorem safe_iff_finds {s : SlotCall} : s.Safe ↔ s.Finds := by
  refine ⟨fun h => isOk_iff_finds.mp h.inBounds, fun h => ⟨isOk_of_finds h, ?_⟩⟩
  intro hctrl habsent
  exact absurd (h.resolve_left (not_not.mpr hctrl)) habsent

end SlotCall

/-! ## The calls of a run -/

/-- The slot call that `create_report` makes: none for a modifier or a layer key. -/
def Call.slotCall? (layer : Fin 4) (c : Call) (st : KeyboardState) : Option SlotCall :=
  if isPlain c.pos then some ⟨c.down, keyCode layer c.pos, implicitShift layer c st⟩ else none

/-- The slot calls of successive calls of `create_report`. -/
def slotCalls (sendErr : Nat → Int) (modes : ConnModes) (layer : Fin 4) :
    List Call → Hid → List SlotCall
  | [], _ => []
  | c :: cs, hid =>
    (c.slotCall? layer hid.kbd).toList ++
      match createReport sendErr modes layer c hid with
      | .ok hid => slotCalls sendErr modes layer cs hid
      | .error _ => []

section

variable (sendErr : Nat → Int) (modes : ConnModes) (layer : Fin 4)

/-- `create_report` goes through exactly when its slot call finds its byte. -/
theorem createReport_isOk_iff {c : Call} (hpos : c.position < 24) (hid : Hid) :
    (createReport sendErr modes layer c hid).isOk = true ↔
      ∀ s ∈ (c.slotCall? layer hid.kbd).toList, s.Finds := by
  unfold Call.slotCall?
  by_cases hplain : isPlain c.pos = true
  · rw [if_pos hplain, createReport_plain sendErr modes layer hid hplain hpos]
    simp only [Option.toList_some, List.mem_singleton, forall_eq]
    rw [← SlotCall.isOk_iff_finds]
    show _ ↔ (slotCall c.down (keyCode layer c.pos) (implicitShift layer c hid.kbd)).isOk = true
    cases slotCall c.down (keyCode layer c.pos) (implicitShift layer c hid.kbd) <;> exact Iff.rfl
  · rw [if_neg hplain]
    simp only [Option.toList_none, List.not_mem_nil, false_imp_iff, implies_true, iff_true]
    by_cases hlayer : isLayerKey c.pos = true
    · rw [createReport_layerKey sendErr modes layer hid hlayer]
      rfl
    · have hmod : isModChr c.lOrR c.position = true := isModChr_of_not_plain hplain hlayer
      obtain ⟨hid', hok, -⟩ := createReport_modifier sendErr modes layer hid hmod hpos
      rw [hok]
      rfl

theorem createReports_isOk_iff {cs : List Call} (hpos : ∀ c ∈ cs, c.position < 24) (hid : Hid) :
    (createReports sendErr modes layer cs hid).isOk = true ↔
      ∀ s ∈ slotCalls sendErr modes layer cs hid, s.Finds := by
  induction cs generalizing hid with
  | nil =>
    refine ⟨?_, fun _ => rfl⟩
    intro _ s hs
    cases hs
  | cons c cs ih =>
    have hone := createReport_isOk_iff sendErr modes layer (hpos c List.mem_cons_self) hid
    rw [createReports, List.foldlM_cons, slotCalls, List.forall_mem_append, ← hone]
    -- the calls after the first start from the state it leaves, if it leaves one
    cases hc : createReport sendErr modes layer c hid with
    | error f =>
      constructor
      · intro h
        cases h
      · intro h
        cases h.1
    | ok hid' =>
      rw [and_iff_right (show (Except.ok hid' : Except Fault Hid).isOk = true from rfl)]
      exact ih (fun d hd => hpos d (List.mem_cons_of_mem _ hd)) hid'

end

/-- The slot calls the firmware makes during an event. -/
def Firmware.slotCalls {κ : Type u} (sendErr : Nat → Int) (fw : Firmware κ) :
    Event κ → List SlotCall
  | .turn _ =>
    match fw.reporting, fw.hid with
    | true, .ok hid => BleKeyboard.slotCalls sendErr fw.connMode
        (fw.poll.selectLayer fw.kbds.keystates) (fw.poll.calls fw.kbds.keystates) hid
    | _, _ => []
  | _ => []

/-- An event leaves an intact keyboard state intact exactly when its slot calls
all find their bytes. -/
theorem Firmware.nextHid_isOk_iff {κ : Type u} {sendErr : Nat → Int} {fw : Firmware κ}
    (hok : fw.hid.isOk = true) (e : Event κ) :
    (fw.nextHid sendErr e).isOk = true ↔ ∀ s ∈ fw.slotCalls sendErr e, s.Finds := by
  obtain ⟨hid, hhid⟩ : ∃ hid, fw.hid = .ok hid := by
    cases hhid : fw.hid with
    | error f =>
      rw [hhid] at hok
      cases hok
    | ok hid => exact ⟨hid, rfl⟩
  have hnone : ∀ s ∈ ([] : List SlotCall), s.Finds := fun s hs => by cases hs
  cases e with
  | turn pins =>
    rw [Firmware.nextHid, Firmware.slotCalls, hhid]
    cases fw.reporting with
    | false => exact ⟨fun _ => hnone, fun _ => rfl⟩
    | true =>
      exact createReports_isOk_iff sendErr fw.connMode _
        (fun c hc => fw.poll.position_lt_of_mem_calls hc) hid
  | _ => exact ⟨fun _ => hnone, fun _ => hok⟩

/-- **Slot-table bounds**: on every run of the firmware, all slot calls are safe
exactly when all of them find what they search for; and those are the runs on which
nothing outside the table is ever touched. -/
theorem slot_calls_safe_iff_finds {κ : Type u} (sendErr : Nat → Int)
    (es : List (Firmware.Event κ)) :
    ((firmware κ sendErr).Along (fun fw e _ => ∀ s ∈ fw.slotCalls sendErr e, s.Safe) es ↔
      (firmware κ sendErr).Along (fun fw e _ => ∀ s ∈ fw.slotCalls sendErr e, s.Finds) es) ∧
    ((firmware κ sendErr).Always (fun fw => fw.hid.isOk = true) es ↔
      (firmware κ sendErr).Along (fun fw e _ => ∀ s ∈ fw.slotCalls sendErr e, s.Finds) es) := by
  constructor
  · constructor
    · intro h
      exact h.mono fun fw e _ _ hall s hs => SlotCall.safe_iff_finds.mp (hall s hs)
    · intro h
      exact h.mono fun fw e _ _ hall s hs => SlotCall.safe_iff_finds.mpr (hall s hs)
  · refine Machine.always_iff rfl ?_
    intro fw e fw' hok hstep
    rw [(Firmware.stepped hstep).hid]
    exact Firmware.nextHid_isOk_iff hok e

/-- Seven keys of the right half go down in one scan: the seventh set call finds the
table full and reads past it, where it should have returned `-EBUSY`. -/
theorem seventh_key_reads_past_table :
    let es : List (Firmware.Event Nat) :=
      [.connected 1 0 .peripheral 0, .securityChanged 1 0, .turn (pinsOf 0x7f),
        .turn (pinsOf 0x7f)]
    ¬(firmware Nat fun _ => 0).Along
      (fun fw e _ => ∀ s ∈ fw.slotCalls (fun _ => 0) e, s.Safe) es ∧
    ∃ fw, (firmware Nat fun _ => 0).run es = some fw ∧ fw.hid = .error (.keysState 6) := by
  refine ⟨by decide +kernel, _, rfl, ?_⟩
  decide +kernel

end BleKeyboard
