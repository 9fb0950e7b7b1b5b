import BleKeyboard.Base.Table
import BleKeyboard.Firmware.Step

/-!
# The protocol mode of each host

`conn_mode` is meant as a map from the registered hosts to their protocol modes. Three
handlers move it: `connected` looks for a free entry, `disconnected` frees the entry of its
connection and finds out on the way whether any other is left, and `hids_pm_evt_handler`
looks for the entry of its connection.

`conn_mode_represents`: on every run the entries stand for that map, no event changes the
entry of a host that it is not about, and `disconnected` sets `in_pairing_mode` exactly when
it leaves no host.
-/

namespace BleKeyboard

open Base

universe u

/-- The registered hosts, each with its protocol mode: true for boot mode. -/
abbrev Hosts := Finmap fun _ : Conn => Bool

/-- The table `conn_mode` stands for a map of hosts. -/
abbrev ConnModes.StandsFor (modes : ConnModes) (hosts : Hosts) : Prop :=
  Represents ConnMode.conn ConnMode.inBootMode modes hosts

namespace Firmware

variable {κ : Type u} {sendErr : Nat → Int} {fw fw' : Firmware κ}

/-! ## The three loops over the table -/

theorem insertConn_eq_set (conn : Conn) {ms : List ConnMode} (hfree : ∃ m ∈ ms, m.conn = none) :
    ∃ i, ∃ hi : i < ms.length,
      ms[i].conn = none ∧ insertConn conn ms = ms.set i ⟨some conn, false⟩ := by
  induction ms with
  | nil =>
    obtain ⟨m, hm, -⟩ := hfree
    cases hm
  | cons m ms ih =>
    by_cases hm : m.conn = none
    · exact ⟨0, Nat.zero_lt_succ _, hm, if_pos hm⟩
    · obtain ⟨m', hmem, hnone⟩ := hfree
      obtain rfl | hmem := List.mem_cons.mp hmem
      · exact absurd hnone hm
      · obtain ⟨i, hi, hfree, heq⟩ := ih ⟨m', hmem, hnone⟩
        refine ⟨i + 1, Nat.succ_lt_succ hi, hfree, ?_⟩
        rw [insertConn, if_neg hm, heq, List.set_cons_succ]

/-- `connected` writes a free entry, if there is one. -/
theorem addConn_eq_set (conn : Conn) {modes : ConnModes}
    (hfree : ∃ i : Fin hidsMaxClientCount, (modes.get i).conn = none) :
    ∃ i : Fin hidsMaxClientCount,
      (modes.get i).conn = none ∧ addConn conn modes = modes.set i ⟨some conn, false⟩ i.isLt := by
  have hmem : ∃ m ∈ modes.toList, m.conn = none := by
    obtain ⟨i, hi⟩ := hfree
    exact ⟨modes.get i, Vector.mem_toList_iff.mpr (Vector.getElem_mem i.isLt), hi⟩
  obtain ⟨i, hi, hnone, heq⟩ := insertConn_eq_set conn hmem
  rw [Vector.length_toList] at hi
  refine ⟨⟨i, hi⟩, hnone, Vector.toList_inj.mp ?_⟩
  rw [Vector.toList_set]
  exact heq

/-- `hids_pm_evt_handler` writes the entry of its connection, if there is one. -/
theorem hidsPmEvtHandler_connMode (evt : PmEvt) (conn : Conn) (fw : Firmware κ) :
    (∃ i : Fin hidsMaxClientCount, (fw.connMode.get i).conn = some conn ∧
      (fw.hidsPmEvtHandler evt conn).connMode
        = fw.connMode.set i ⟨some conn, decide (evt = .bootModeEntered)⟩ i.isLt) ∨
    (∀ i : Fin hidsMaxClientCount, (fw.connMode.get i).conn ≠ some conn) ∧
      fw.hidsPmEvtHandler evt conn = fw := by
  unfold hidsPmEvtHandler
  cases hfind : (List.finRange hidsMaxClientCount).find? fun i =>
    (fw.connMode.get i).conn = some conn with
  | none =>
    refine .inr ⟨?_, rfl⟩
    intro i hi
    exact List.find?_eq_none.mp hfind i (List.mem_finRange i) (decide_eq_true hi)
  | some i =>
    have hi : (fw.connMode.get i).conn = some conn := by simpa using List.find?_some hfind
    refine .inl ⟨i, hi, ?_⟩
    cases evt <;> simp [hi]

/-- `disconnected` looks for a connection other than its own. -/
theorem isAnyDevConnected_iff (conn : Conn) (modes : ConnModes) :
    isAnyDevConnected conn modes = true ↔
      ∃ i : Fin hidsMaxClientCount,
        (modes.get i).conn ≠ some conn ∧ (modes.get i).conn ≠ none := by
  rw [isAnyDevConnected, List.any_eq_true]
  simp only [Bool.and_eq_true, decide_eq_true_eq, Option.isSome_iff_ne_none]
  constructor
  · rintro ⟨m, hm, hother, hsome⟩
    obtain ⟨i, hi, rfl⟩ := Vector.getElem_of_mem (Vector.mem_toList_iff.mp hm)
    exact ⟨⟨i, hi⟩, hother, hsome⟩
  · rintro ⟨i, hother, hsome⟩
    exact ⟨modes.get i, Vector.mem_toList_iff.mpr (Vector.getElem_mem i.isLt), hother, hsome⟩

/-! ## One event -/

/-- `conn_mode` after an event. -/
def nextConnMode (fw : Firmware κ) : Event κ → ConnModes
  | .connected conn err role hidsErr =>
    if err = 0 ∧ role = .peripheral ∧ hidsErr = 0 then addConn conn fw.connMode
    else fw.connMode
  | .disconnected conn role _ =>
    if role = .peripheral then removeConn conn fw.connMode else fw.connMode
  | .pmEvt evt conn => (fw.hidsPmEvtHandler evt conn).connMode
  | _ => fw.connMode

theorem step_connMode {e : Event κ} (h : fw.step sendErr e = some fw') :
    fw'.connMode = fw.nextConnMode e := by
  cases e with
  | connected conn err role hidsErr =>
    obtain ⟨defaultConn, isAdv, heq⟩ := fw.connected_frame conn err role hidsErr
    obtain rfl : fw.connected conn err role hidsErr = fw' := Option.some.inj h
    rw [heq, nextConnMode]
  | disconnected conn role advErr =>
    obtain ⟨defaultConn, isAdv, heq⟩ := fw.disconnected_frame conn role advErr
    obtain rfl : fw.disconnected conn role advErr = fw' := Option.some.inj h
    rw [heq, nextConnMode]
  | securityChanged conn err =>
    obtain rfl : fw.securityChanged conn err = fw' := Option.some.inj h
    rw [securityChanged_eq]
    rfl
  | turn pins =>
    obtain ⟨pressed, heq⟩ := fw.mainLoop_frame sendErr pins
    obtain rfl : (fw.mainLoop sendErr pins).1 = fw' := Option.some.inj h
    rw [heq]
    rfl
  | notified data =>
    obtain ⟨r, -, rfl⟩ := notified_of_step h
    rfl
  | readWork =>
    obtain ⟨-, rfl⟩ := readWork_of_step h
    rfl
  | pairingWork =>
    obtain ⟨-, rfl⟩ := pairingWork_of_step h
    rfl
  | scanConnecting conn | pmEvt evt conn | discoveryCompleted dm subscribeErr readErr
  | readResponse err data | periodicResponse err data | passkeyConfirm conn passkey
  | authCancel conn | pairingFailed conn =>
    obtain rfl := Option.some.inj h
    rfl

/-- The hosts after an event: registered in report mode, in the mode of the last mode event
since, gone. -/
def nextHosts (hosts : Hosts) (_ : Firmware κ) : Event κ → Hosts
  | .connected conn err role hidsErr =>
    if err = 0 ∧ role = .peripheral ∧ hidsErr = 0 then hosts.insert conn false else hosts
  | .disconnected conn role _ => if role = .peripheral then hosts.erase conn else hosts
  | .pmEvt evt conn =>
    if conn ∈ hosts then hosts.insert conn (decide (evt = .bootModeEntered)) else hosts
  | _ => hosts

/-- `bt_hids_connected` takes a host that is not registered yet, as long as it has room. -/
def Registers (s : Firmware κ × Hosts) : Event κ → Prop
  | .connected conn err role hidsErr => err = 0 ∧ role = .peripheral ∧ hidsErr = 0 →
      conn ∉ s.2 ∧ s.2.keys.card < hidsMaxClientCount
  | _ => True

instance (s : Firmware κ × Hosts) : DecidablePred (Registers (κ := κ) s)
  | .connected _ _ _ _ => inferInstanceAs (Decidable (_ → _))
  | .scanConnecting _ | .disconnected _ _ _ | .securityChanged _ _ | .pmEvt _ _
  | .discoveryCompleted _ _ _ | .notified _ | .readResponse _ _ | .readWork
  | .periodicResponse _ _ | .passkeyConfirm _ _ | .authCancel _ | .pairingFailed _
  | .pairingWork | .turn _ => .isTrue trivial

/-- The host that an event is about. -/
def Event.host : Event κ → Option Conn
  | .connected conn _ .peripheral _ | .disconnected conn .peripheral _ | .pmEvt _ conn => some conn
  | _ => none

/-- The entries of other hosts stay. -/
def KeepsOthers (e : Event κ) (modes modes' : ConnModes) : Prop :=
  ∀ (i : Fin hidsMaxClientCount) (c : Conn),
    (modes.get i).conn = some c → e.host ≠ some c → modes'.get i = modes.get i

/-- `disconnected` sets the flag if it is about a host and leaves none, and else keeps it. -/
def FlagsLastGone (s : Firmware κ × Hosts) : Event κ → Firmware κ × Hosts → Prop
  | .disconnected _ role _, t =>
    t.1.inPairingMode = if role = .peripheral ∧ t.2 = ∅ then true else s.1.inPairingMode
  | _, _ => True

theorem standsFor_removeConn {modes : ConnModes} {hosts : Hosts} (h : modes.StandsFor hosts)
    (conn : Conn) : (removeConn conn modes).StandsFor (hosts.erase conn) := by
  refine h.free ?_ ?_
  · intro m hm
    rw [if_pos hm]
  · intro m hm
    rw [if_neg hm]

theorem standsFor_nextHosts {hosts : Hosts} {e : Event κ} (h : fw.connMode.StandsFor hosts)
    (hreg : Registers (fw, hosts) e) : (fw.nextConnMode e).StandsFor (fw.nextHosts hosts e) := by
  cases e with
  | connected conn err role hidsErr =>
    rw [nextConnMode, nextHosts]
    by_cases htaken : err = 0 ∧ role = .peripheral ∧ hidsErr = 0
    · rw [if_pos htaken, if_pos htaken]
      obtain ⟨hnew, hroom⟩ := hreg htaken
      obtain ⟨i, hi, heq⟩ := addConn_eq_set conn (h.exists_free hroom)
      rw [heq]
      refine h.set (a := ⟨some conn, false⟩) rfl ?_ ?_
      · intro c hc
        exact absurd (hi.symm.trans hc) (Option.some_ne_none c).symm
      · intro j hj
        exact absurd ((h.mem_iff conn).mpr ⟨j, hj⟩) hnew
    · rw [if_neg htaken, if_neg htaken]
      exact h
  | disconnected conn role advErr =>
    rw [nextConnMode, nextHosts]
    by_cases hrole : role = .peripheral
    · rw [if_pos hrole, if_pos hrole]
      exact standsFor_removeConn h conn
    · rw [if_neg hrole, if_neg hrole]
      exact h
  | pmEvt evt conn =>
    rw [nextConnMode, nextHosts]
    obtain ⟨i, hi, heq⟩ | ⟨hnone, heq⟩ := hidsPmEvtHandler_connMode evt conn fw
    · rw [if_pos ((h.mem_iff conn).mpr ⟨i, hi⟩), heq]
      refine h.set (a := ⟨some conn, decide (evt = .bootModeEntered)⟩) rfl ?_ ?_
      · intro c hc
        exact Option.some.inj (hc.symm.trans hi)
      · intro j hj
        exact h.distinct j i conn hj hi
    · have hnot : conn ∉ hosts := fun hmem => by
        obtain ⟨i, hi⟩ := (h.mem_iff conn).mp hmem
        exact hnone i hi
      rw [if_neg hnot, heq]
      exact h
  | _ => exact h

theorem keepsOthers_nextConnMode {hosts : Hosts} {e : Event κ} (h : fw.connMode.StandsFor hosts)
    (hreg : Registers (fw, hosts) e) : KeepsOthers e fw.connMode (fw.nextConnMode e) := by
  intro i c hc hother
  -- a write to an entry that is free, or of the event's own host
  have hset : ∀ (j : Fin hidsMaxClientCount) (m : ConnMode), (fw.connMode.get j).conn ≠ some c →
      (fw.connMode.set j m).get i = fw.connMode.get i := by
    intro j m hj
    have hne : j.val ≠ i.val := by
      intro hij
      obtain rfl := Fin.ext hij
      exact hj hc
    exact Vector.getElem_set_ne _ _ hne
  cases e with
  | connected conn err role hidsErr =>
    rw [nextConnMode]
    split
    · next htaken =>
      obtain ⟨j, hj, heq⟩ := addConn_eq_set conn (h.exists_free (hreg htaken).2)
      rw [heq]
      exact hset j _ fun hjc => absurd (hj.symm.trans hjc) (Option.some_ne_none c).symm
    · rfl
  | disconnected conn role advErr =>
    rw [nextConnMode]
    split
    · next hrole =>
      subst hrole
      rw [removeConn_get]
      refine if_neg fun heq => ?_
      exact hother (heq.symm.trans hc)
    · rfl
  | pmEvt evt conn =>
    rw [nextConnMode]
    obtain ⟨j, hj, heq⟩ | ⟨-, heq⟩ := hidsPmEvtHandler_connMode evt conn fw
    · rw [heq]
      exact hset j _ fun hjc => hother (hj.symm.trans hjc)
    · rw [heq]
  | _ => rfl

theorem isAnyDevConnected_eq_false_iff {hosts : Hosts} (h : fw.connMode.StandsFor hosts)
    (conn : Conn) : isAnyDevConnected conn fw.connMode = false ↔ hosts.erase conn = ∅ := by
  rw [(standsFor_removeConn h conn).eq_empty_iff, ← Bool.not_eq_true, isAnyDevConnected_iff,
    not_exists]
  -- the entries that `disconnected` passes over are those that it has freed, or free anyway
  refine forall_congr' fun i => ?_
  show _ ↔ ((removeConn conn fw.connMode).get i).conn = none
  rw [removeConn_get]
  by_cases hi : (fw.connMode.get i).conn = some conn
  · rw [if_pos hi]
    exact iff_of_true (fun h => h.1 hi) rfl
  · rw [if_neg hi, not_and, not_not]
    exact forall_prop_of_true hi

theorem flagsLastGone_step {hosts : Hosts} {e : Event κ} (h : fw.connMode.StandsFor hosts)
    (hstep : fw.step sendErr e = some fw') :
    FlagsLastGone (fw, hosts) e (fw', fw.nextHosts hosts e) := by
  cases e with
  | disconnected conn role advErr =>
    show fw'.inPairingMode
      = if role = .peripheral ∧ fw.nextHosts hosts (.disconnected conn role advErr) = ∅ then true
        else fw.inPairingMode
    rw [(stepped hstep).inPairingMode, nextInPairingMode, nextHosts]
    cases role with
    | central => rfl
    | peripheral =>
      rw [if_pos rfl]
      have hany := isAnyDevConnected_eq_false_iff h conn
      cases hdev : isAnyDevConnected conn fw.connMode with
      | false =>
        rw [if_pos ⟨rfl, hany.mp hdev⟩]
        rfl
      | true =>
        have hleft : ¬hosts.erase conn = ∅ := fun hgone =>
          Bool.false_ne_true ((hany.mpr hgone).symm.trans hdev)
        rw [if_neg fun hgone => hleft hgone.2]
        rfl
  | _ => trivial

end Firmware

/-! ## Runs -/

/-- The firmware, with the hosts that HIDS has registered. -/
def registering (κ : Type u) (sendErr : Nat → Int) :
    Machine (Firmware κ × Hosts) (Firmware.Event κ) :=
  ((firmware κ sendErr).recording ∅ Firmware.nextHosts).under Firmware.Registers

/-- **`conn_mode` is a map of hosts**: on every run in which HIDS registers no host twice and
no more than there is room for, its entries stand for the registered hosts and the last mode
of each; no event changes the entry of a host that it is not about; and `disconnected` sets
`in_pairing_mode` exactly when it is about a host and leaves none registered. -/
theorem conn_mode_represents (sendErr : Nat → Int) (es : List (Firmware.Event κ)) :
    (registering κ sendErr).Always (fun s => s.1.connMode.StandsFor s.2) es ∧
    (registering κ sendErr).Along (fun s e t =>
      Firmware.KeepsOthers e s.1.connMode t.1.connMode ∧ Firmware.FlagsLastGone s e t) es := by
  have hinit : (Firmware.init : Firmware κ).connMode.StandsFor ∅ := by
    refine .empty fun i => ?_
    show (Vector.replicate hidsMaxClientCount (⟨none, false⟩ : ConnMode))[i.val].conn = none
    rw [Vector.getElem_replicate]
  have hstep : ∀ s e t, s.1.connMode.StandsFor s.2 → (registering κ sendErr).step s e = some t →
      t.1.connMode.StandsFor t.2 ∧
        Firmware.KeepsOthers e s.1.connMode t.1.connMode ∧ Firmware.FlagsLastGone s e t := by
    rintro ⟨fw, hosts⟩ e ⟨fw', hosts'⟩ h hstep
    obtain ⟨hreg, hnext, rfl⟩ := Machine.recording_under_step.mp hstep
    have hmode : fw'.connMode = fw.nextConnMode e := Firmware.step_connMode hnext
    rw [hmode]
    exact ⟨Firmware.standsFor_nextHosts h hreg, Firmware.keepsOthers_nextConnMode h hreg,
      Firmware.flagsLastGone_step h hnext⟩
  exact ⟨Machine.alwaysFrom_of_step es hinit fun s e t h ht => (hstep s e t h ht).1,
    Machine.alongFrom_of_inv es hinit hstep⟩

/-- A third host is refused, and takes the entry of the first when that has gone. -/
example : ((registering Nat (fun _ => 0)).run
    [.connected 1 0 .peripheral 0, .connected 2 0 .peripheral 0, .connected 3 0 .peripheral (-12),
      .pmEvt .bootModeEntered 2, .pmEvt .bootModeEntered 1, .disconnected 1 .peripheral 0,
      .connected 3 0 .peripheral 0]).map (fun s => s.1.connMode.toList)
    = some [⟨some 3, false⟩, ⟨some 2, true⟩] := by decide +kernel

end BleKeyboard
