import BleKeyboard.Host.View
import BleKeyboard.Report.HeldKeys

/-!
# The stream of reports

What `call_key_report` amounts to on the outside, as a relation between keyboard states, the
edges in between and the reports that go out: an edge of a layer key does nothing, any other
edge moves the keyboard state and sends the new one to the hosts, entry after entry, until the
stack refuses it.

- `reports_fan_out`: every turn of every run that does not fault is of this form, and nothing
  but a turn that reports sends a report;
- `slots_account`: the slots, together with the codes that plain switches have released, are those
  that they have pressed.
-/

namespace BleKeyboard

open Base
open Base.Edge

universe u

/-! ## One edge after the other -/

/-- What an edge does to the keyboard state. A key that is released was in a slot. -/
structure Moves (layer : Fin 4) (c : Call) (st st' : KeyboardState) : Prop where
  ctrl : st'.ctrlKeysState = ctrlAfter layer c st.ctrlKeysState
  keys : if isPlain c.pos then
      if c.down then st'.keys = addKey (keyCode layer c.pos) st.keys
      else st.keys = addKey (keyCode layer c.pos) st'.keys
    else st'.keys = st.keys

/-- Edges from one keyboard state to another, and the reports that they send. -/
inductive Reported (layer : Fin 4) (hosts : List (Conn × Bool)) :
    KeyboardState → List Call → List SentReport → KeyboardState → Prop
  | done (st : KeyboardState) : Reported layer hosts st [] [] st
  | layerKey {st st' : KeyboardState} {c : Call} {cs : List Call} {rs : List SentReport}
      (hlayer : isLayerKey c.pos = true) (rest : Reported layer hosts st cs rs st') :
      Reported layer hosts st (c :: cs) rs st'
  | edge {st st₁ st' : KeyboardState} {c : Call} {cs : List Call} {block rs : List SentReport}
      (hlayer : isLayerKey c.pos = false) (hmoves : Moves layer c st st₁)
      (hsent : FannedOut hosts (keyReport st₁) block) (rest : Reported layer hosts st₁ cs rs st') :
      Reported layer hosts st (c :: cs) (block ++ rs) st'

section

variable {sendErr : Nat → Int} {modes : ConnModes} {layer : Fin 4} {c : Call} {hid hid' : Hid}

/-- A slot call that goes through finds the key that it takes out. -/
theorem slotCall_moves {down : Bool} {key : Byte} {st : KeyboardState} {r : Int × KeyboardState}
    (hctrl : buttonCtrlCode key = 0) (hok : slotCall down key st = .ok r) :
    if down then r.2.keys = addKey key st.keys else st.keys = addKey key r.2.keys := by
  obtain ⟨-, hkeys⟩ := slotCall_spec hctrl hok
  cases down with
  | true => exact hkeys
  | false =>
    have hkeys : r.2.keys = removeKey key st.keys := hkeys
    rw [if_neg Bool.false_ne_true, hkeys]
    unfold addKey removeKey
    by_cases h0 : key = 0
    · rw [if_pos h0, if_pos h0]
    · rw [if_neg h0, if_neg h0]
      refine (Multiset.cons_erase ?_).symm
      -- a search for a key that is in no slot leaves the table
      by_contra hnot
      have habsent : key ∉ st.keysState.toList := fun hmem => hnot (mem_bag.mpr ⟨hmem, h0⟩)
      rw [slotCall, if_neg Bool.false_ne_true, keyClear_of_not_mem hctrl habsent] at hok
      cases hok

/-- A call of `create_report` that goes through. -/
theorem createReport_moves (hok : createReport sendErr modes layer c hid = .ok hid') :
    Moves layer c hid.kbd hid'.kbd := by
  obtain ⟨hctrl, hkeys⟩ := createReport_after hok
  have hpos := position_lt_of_createReport hok
  refine ⟨hctrl, ?_⟩
  by_cases hplain : isPlain c.pos = true
  · rw [if_pos hplain]
    rw [createReport_plain sendErr modes layer hid hplain hpos] at hok
    obtain ⟨r, hslot, rfl⟩ := exceptMap_eq_ok hok
    have hcode : buttonCtrlCode (keyCode layer c.pos) = 0 :=
      buttonCtrlCode_eq_zero (Nat.lt_of_le_of_lt (keyCode_lt layer hpos) (by decide))
    rw [keyReportSend_kbd, ← implicitShift_keys layer hid.kbd]
    exact slotCall_moves hcode hslot
  · rw [if_neg hplain]
    rwa [keysAfter, if_neg hplain] at hkeys

/-- The reports of one edge that is not one of a layer key. -/
theorem createReport_fannedOut (hlayer : isLayerKey c.pos = false)
    (hok : createReport sendErr modes layer c hid = .ok hid') :
    ∃ rs, hid'.sent = hid.sent ++ rs ∧ FannedOut (hostsOf modes) (keyReport hid'.kbd) rs := by
  rw [createReport_of_not_layerKey sendErr modes layer hid hlayer
    (position_lt_of_createReport hok)] at hok
  obtain ⟨st, -, rfl⟩ := exceptMap_eq_ok hok
  rw [keyReportSend_kbd]
  exact keyReportSendLoop_fannedOut sendErr modes.toList { hid with kbd := st }

/-- **Successive calls** of `create_report` that go through are edges with their reports. -/
theorem createReports_reported {cs : List Call}
    (hok : createReports sendErr modes layer cs hid = .ok hid') :
    ∃ rs, hid'.sent = hid.sent ++ rs ∧ Reported layer (hostsOf modes) hid.kbd cs rs hid'.kbd := by
  induction cs generalizing hid with
  | nil =>
    obtain rfl := Except.ok.inj hok
    exact ⟨[], (List.append_nil _).symm, .done _⟩
  | cons c cs ih =>
    rw [createReports, List.foldlM_cons] at hok
    obtain ⟨hid₁, hone, hrest⟩ := exceptBind_eq_ok hok
    obtain ⟨rs, hsent, hreported⟩ := ih hrest
    by_cases hlayer : isLayerKey c.pos = true
    · rw [createReport_layerKey sendErr modes layer hid hlayer] at hone
      obtain rfl := Except.ok.inj hone
      exact ⟨rs, hsent, .layerKey hlayer hreported⟩
    · have hlayer := Bool.eq_false_of_not_eq_true hlayer
      obtain ⟨block, hblock, hfanned⟩ := createReport_fannedOut hlayer hone
      refine ⟨block ++ rs, ?_, .edge hlayer (createReport_moves hone) hfanned hreported⟩
      rw [hsent, hblock, List.append_assoc]

end

/-! ## Runs -/

namespace Firmware

variable {κ : Type u} {sendErr : Nat → Int}

/-- What one event sends. -/
def Sends (fw : Firmware κ) (e : Event κ) (fw' : Firmware κ) : Prop :=
  if fw.Reports e then
    ∀ hid', fw'.hid = .ok hid' → ∃ hid rs, fw.hid = .ok hid ∧ hid'.sent = hid.sent ++ rs ∧
      Reported (fw.poll.selectLayer fw.kbds.keystates) (hostsOf fw.connMode) hid.kbd
        (fw.poll.calls fw.kbds.keystates) rs hid'.kbd
  else fw'.hid = fw.hid

theorem sends {fw fw' : Firmware κ} {e : Event κ} (h : fw.step sendErr e = some fw') :
    fw.Sends e fw' := by
  have hhid := (stepped h).hid
  unfold Sends
  by_cases hrep : fw.Reports e
  · rw [if_pos hrep]
    intro hid' hok
    cases e with
    | turn pins =>
      have hrep : fw.reporting = true := hrep
      rw [hhid, nextHid, if_pos hrep] at hok
      obtain ⟨hid, hok₀, hcalls⟩ := exceptBind_eq_ok hok
      obtain ⟨rs, hsent, hreported⟩ := createReports_reported hcalls
      exact ⟨hid, rs, hok₀, hsent, hreported⟩
    | _ => cases hrep
  · rw [if_neg hrep, hhid]
    exact nextHid_of_not_reports hrep

end Firmware

/-- **Reports fan out**: in every run, a turn that reports and does not fault sends the keyboard
state after each edge that is not one of a layer key, to the hosts in the order of their entries,
up to the first that refuses it; and nothing else sends a report. -/
theorem reports_fan_out {κ : Type u} (sendErr : Nat → Int) (es : List (Firmware.Event κ)) :
    (firmware κ sendErr).Along Firmware.Sends es :=
  Machine.alongFrom_of_step _ es fun _ _ _ h => Firmware.sends h

/-- The edges that have been dispatched, after an event. -/
def Firmware.nextHistory {κ : Type u} (h : History) (fw : Firmware κ) (e : Firmware.Event κ) :
    History :=
  if fw.Reports e then h ++ fw.poll.edges fw.kbds.keystates else h

/-- The firmware, with the edges that it has dispatched on the side. -/
def dispatching (κ : Type u) (sendErr : Nat → Int) :
    Machine (Firmware κ × History) (Firmware.Event κ) :=
  (firmware κ sendErr).recording [] Firmware.nextHistory

/-- The codes that plain switches have pressed, or those that they have released, as often as they
have; `KEY_NONE` does not count. -/
def keysMoved (down : Bool) (h : History) : Multiset Byte :=
  ((h.filter fun e => isPlain e.pos && e.down == down && e.code != 0).map Edge.code : List Byte)

theorem keysMoved_append (down : Bool) (h h' : History) :
    keysMoved down (h ++ h') = keysMoved down h + keysMoved down h' := by
  rw [keysMoved, List.filter_append, List.map_append, ← Multiset.coe_add]
  rfl

theorem keysMoved_cons (down : Bool) (e : Edge Pos Byte) (h : History) :
    keysMoved down (e :: h)
      = if isPlain e.pos = true ∧ e.down = down then addKey e.code (keysMoved down h)
        else keysMoved down h := by
  unfold keysMoved addKey
  rw [List.filter_cons]
  by_cases hmoved : isPlain e.pos = true ∧ e.down = down
  · have hkeep : (isPlain e.pos && e.down == down && e.code != 0) = (e.code != 0) := by
      rw [hmoved.1, hmoved.2, beq_self_eq_true, Bool.true_and, Bool.true_and]
    rw [if_pos hmoved, hkeep]
    by_cases hcode : e.code = 0
    · rw [if_neg fun h => bne_iff_ne.mp h hcode, if_pos hcode]
    · rw [if_pos (bne_iff_ne.mpr hcode), if_neg hcode]
      rfl
  · rw [if_neg hmoved]
    have hnot : ¬(isPlain e.pos && e.down == down && e.code != 0) = true := by
      rw [Bool.and_eq_true, Bool.and_eq_true, beq_iff_eq]
      exact fun h => hmoved h.1
    rw [if_neg hnot]

/-- A key that goes into both sums changes nothing. -/
theorem addKey_add (key : Byte) (b b' : Multiset Byte) :
    addKey key b + b' = addKey key (b + b') := by
  unfold addKey
  split
  · rfl
  · exact Multiset.cons_add _ _ _

/-- **One turn**: what its edges press comes into the slots, and what they release goes. -/
theorem Reported.account {layer : Fin 4} {hosts : List (Conn × Bool)} {st st' : KeyboardState}
    {cs : List Call} {rs : List SentReport} (h : Reported layer hosts st cs rs st') :
    st'.keys + keysMoved false (edges layer cs) = st.keys + keysMoved true (edges layer cs) := by
  induction h with
  | done st => rfl
  | @layerKey st st' c cs rs hlayer _ ih =>
    have hplain : isPlain (c.edge layer).pos = false := by
      by_contra hplain
      have hnot := (isPlain_iff.mp (Bool.not_eq_false _ ▸ hplain)).1
      exact Bool.false_ne_true (hnot.symm.trans hlayer)
    rw [edges_cons, keysMoved_cons, keysMoved_cons, hplain]
    simpa using ih
  | @edge st st₁ st' c cs block rs _ hmoves _ _ ih =>
    rw [edges_cons, keysMoved_cons, keysMoved_cons]
    have hkeys := hmoves.keys
    by_cases hplain : isPlain c.pos = true
    · rw [if_pos hplain] at hkeys
      have hpos : isPlain (c.edge layer).pos = true := hplain
      cases hdown : c.down with
      | true =>
        rw [hdown, if_pos rfl] at hkeys
        have hdown : (c.edge layer).down = true := hdown
        rw [hpos, hdown, if_neg (by simp), if_pos ⟨rfl, rfl⟩, ih, hkeys, addKey_add,
          add_comm st.keys (addKey _ _), addKey_add, add_comm st.keys]
        rfl
      | false =>
        rw [hdown, if_neg Bool.false_ne_true] at hkeys
        have hdown : (c.edge layer).down = false := hdown
        rw [hpos, hdown, if_pos ⟨rfl, rfl⟩, if_neg (by simp), hkeys, addKey_add, ← ih,
          add_comm st'.keys (addKey _ _), addKey_add, add_comm st'.keys]
        rfl
    · rw [if_neg hplain] at hkeys
      have hpos : ¬isPlain (c.edge layer).pos = true := hplain
      rw [if_neg fun h => hpos h.1, if_neg fun h => hpos h.1, ih, hkeys]

/-- **Nothing is lost and nothing is made up**: in every state of every run, as long as no call
has faulted, the slots together with the codes that plain switches have released are those that
they have pressed, whatever the layers; neither counts `KEY_NONE`. -/
theorem slots_account {κ : Type u} (sendErr : Nat → Int) (es : List (Firmware.Event κ)) :
    (dispatching κ sendErr).Always (fun s => ∀ hid, s.1.hid = .ok hid →
      hid.kbd.keys + keysMoved false s.2 = keysMoved true s.2) es := by
  refine Machine.alwaysFrom_of_step es ?_ ?_
  · intro hid hok
    obtain rfl := Except.ok.inj hok
    show KeyboardState.zero.keys + keysMoved false [] = keysMoved true []
    decide
  · intro s e t hs ht hid' hok
    obtain ⟨hstep, hhistory⟩ := Machine.recording_step.mp ht
    have hsends := Firmware.sends hstep
    rw [hhistory, Firmware.nextHistory]
    unfold Firmware.Sends at hsends
    by_cases hrep : s.1.Reports e
    · rw [if_pos hrep] at hsends ⊢
      obtain ⟨hid, rs, hok₀, -, hreported⟩ := hsends hid' hok
      rw [keysMoved_append, keysMoved_append, ← hs hid hok₀, add_comm (keysMoved false s.2),
        ← add_assoc]
      have hturn := hreported.account
      rw [Poll.edges, hturn, add_right_comm]
    · rw [if_neg hrep] at hsends ⊢
      exact hs hid' (hsends ▸ hok)

end BleKeyboard
