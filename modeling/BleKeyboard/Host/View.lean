import BleKeyboard.Host.Secured
import BleKeyboard.Report.SlotTable

/-!
# What the host has been told

A report carries the whole keyboard state, and `create_report` sends one after every edge
that changes it. Nothing else does: a report that the stack refuses is not repeated, and a
host that connects is not told what is already down.

`View` keeps, for every host, what the log and the keyboard state were when it last
connected. `host_view_of_settled`: the last report that the stack accepted for the host in
the first entry is the keyboard state, if the last one handed to it was accepted, or if
none has been and the state was all zero when the host connected.
-/

namespace BleKeyboard

open Base

universe u

variable {κ : Type u}

/-- The number of reports sent before each host last connected, and the keyboard state
then. -/
structure View where
  since : Conn → Nat
  start : Conn → Option KeyboardState

namespace View

/-- No host has connected. -/
def zero : View := ⟨fun _ => 0, fun _ => none⟩

/-- The views after an event. -/
def next (v : View) (fw : Firmware κ) : Firmware.Event κ → View
  | .connected conn err role _ =>
    if err = 0 ∧ role = .peripheral then
      { since := Function.update v.since conn (fw.hid.toOption.elim 0 fun hid => hid.sent.length)
        start := Function.update v.start conn (fw.hid.toOption.map Hid.kbd) }
    else v
  | _ => v

/-- The reports handed to the stack for a host since it connected, accepted or refused. -/
def handed (v : View) (conn : Conn) (hid : Hid) : List SentReport :=
  (hid.sent.drop (v.since conn)).filter fun r => r.conn == conn

/-- The data of the last report that the stack accepted for a host since it connected; all
zero if there is none. -/
def shown (v : View) (conn : Conn) (hid : Hid) : List Byte :=
  (((v.handed conn hid).filter fun r => r.err == 0).getLast?.map SentReport.data).getD
    (keyReport .zero)

/-- The host in the first entry has been shown the keyboard state. -/
def Agrees (v : View) (fw : Firmware κ) : Prop :=
  ∀ hid, fw.hid = .ok hid →
    ∀ conn ∈ Firmware.firstHost fw.connMode, v.shown conn hid = keyReport hid.kbd

instance (v : View) (fw : Firmware κ) : Decidable (v.Agrees fw) :=
  match h : fw.hid with
  | .ok hid => decidable_of_iff
      (∀ conn ∈ Firmware.firstHost fw.connMode, v.shown conn hid = keyReport hid.kbd)
      (by simp [Agrees, h])
  | .error _ => .isTrue (by simp [Agrees, h])

/-- The last report handed to the stack for a host was accepted; or none has been since
the host connected, and it connected when the keyboard state was all zero. -/
def Settled (v : View) (conn : Conn) (hid : Hid) : Prop :=
  match (v.handed conn hid).getLast? with
  | some r => r.err = 0
  | none => v.start conn = some .zero

/-- The last report handed to the stack for a host carries the keyboard state; or none has
been since the host connected, and the state is what it was then. -/
structure Current (v : View) (conn : Conn) (hid : Hid) : Prop where
  since : v.since conn ≤ hid.sent.length
  last : ∀ r ∈ (v.handed conn hid).getLast?, r.data = keyReport hid.kbd
  none : (v.handed conn hid).getLast? = none → v.start conn = some hid.kbd

variable {v : View} {conn : Conn} {hid hid' : Hid}

theorem Current.shown_of_settled (hc : v.Current conn hid) (hs : v.Settled conn hid) :
    v.shown conn hid = keyReport hid.kbd := by
  unfold shown
  unfold Settled at hs
  cases hlast : (v.handed conn hid).getLast? with
  | none =>
    rw [hlast] at hs
    have hzero := Option.some.inj ((hc.none hlast).symm.trans hs)
    rw [List.getLast?_eq_none_iff.mp hlast, hzero]
    rfl
  | some r =>
    rw [hlast] at hs
    obtain ⟨rs, hrs⟩ := List.getLast?_eq_some_iff.mp hlast
    have hone : [r].filter (fun r => r.err == 0) = [r] :=
      List.filter_cons_of_pos (beq_iff_eq.mpr hs)
    rw [hrs, List.filter_append, hone, List.getLast?_concat, Option.map_some, Option.getD_some]
    exact hc.last r hlast

/-- Reports that carry the new state, one for the host among them. -/
theorem Current.send (hc : v.Current conn hid) {rs : List SentReport}
    (hsent : hid'.sent = hid.sent ++ rs) (hdata : ∀ r ∈ rs, r.data = keyReport hid'.kbd)
    (hconn : ∃ r ∈ rs, r.conn = conn) : v.Current conn hid' := by
  have hhanded : v.handed conn hid' = v.handed conn hid ++ rs.filter fun r => r.conn == conn := by
    rw [handed, hsent, List.drop_append_of_le_length hc.since, List.filter_append]
    rfl
  have hne : rs.filter (fun r => r.conn == conn) ≠ [] := by
    obtain ⟨r, hr, hrc⟩ := hconn
    exact List.ne_nil_of_mem (List.mem_filter.mpr ⟨hr, beq_iff_eq.mpr hrc⟩)
  have hlast : (v.handed conn hid').getLast?
      = (rs.filter fun r => r.conn == conn).getLast? := by
    rw [hhanded, List.getLast?_append_of_ne_nil _ hne]
  constructor
  · rw [hsent, List.length_append]
    exact Nat.le_trans hc.since (Nat.le_add_right _ _)
  · intro r hr
    rw [hlast] at hr
    exact hdata r (List.mem_of_mem_filter (List.mem_of_getLast? hr))
  · intro hnone
    rw [hlast] at hnone
    exact absurd (List.getLast?_eq_none_iff.mp hnone) hne

end View

/-! ## What `create_report` sends -/

section

variable {sendErr : Nat → Int} {modes : ConnModes} {layer : Fin 4} {conn : Conn}

/-- An edge changes nothing, or reports the new state to the host in the first entry. -/
theorem createReport_current {v : View} {c : Call} {hid hid' : Hid}
    (hfirst : Firmware.firstHost modes = some conn) (hc : v.Current conn hid)
    (hok : createReport sendErr modes layer c hid = .ok hid') : v.Current conn hid' := by
  rcases createReport_cases hok with rfl | ⟨st, rfl⟩
  · exact hc
  · obtain ⟨rs, hsent, hdata, hhead⟩ :=
      keyReportSendLoop_sent sendErr conn modes.toList { hid with kbd := st }
    refine hc.send hsent ?_ ?_
    · rwa [keyReportSend_kbd]
    · obtain ⟨⟨ms⟩, hms⟩ := modes
      match ms, hms with
      | m :: ms, _ => exact hhead m rfl hfirst

end

/-! ## Runs -/

namespace Firmware

/-- The event is a turn of the main loop that runs `call_key_report`. -/
def Reports (fw : Firmware κ) : Event κ → Prop
  | .turn _ => fw.reporting = true
  | _ => False

instance (fw : Firmware κ) : DecidablePred fw.Reports
  | .turn _ => inferInstanceAs (Decidable (_ = _))
  | .scanConnecting _ | .connected _ _ _ _ | .disconnected _ _ _ | .securityChanged _ _
  | .pmEvt _ _ | .discoveryCompleted _ _ _ | .notified _ | .readResponse _ _ | .readWork
  | .periodicResponse _ _ | .passkeyConfirm _ _ | .authCancel _ | .pairingFailed _
  | .pairingWork => .isFalse id

/-- No other event moves a key. -/
theorem nextHid_of_not_reports {sendErr : Nat → Int} {fw : Firmware κ} {e : Event κ}
    (hrep : ¬fw.Reports e) : fw.nextHid sendErr e = fw.hid := by
  cases e with
  | turn pins => exact if_neg hrep
  | _ => rfl

/-- Nothing but a turn that reports changes the words of the poll. -/
def KeepsWords (fw : Firmware κ) (e : Event κ) : Prop := fw.Reports e ∨ fw.nextPoll e = fw.poll

instance (fw : Firmware κ) : DecidablePred fw.KeepsWords :=
  fun _ => inferInstanceAs (Decidable (_ ∨ _))

end Firmware

namespace View

/-- The view of the host in the first entry is current. -/
def InView (v : View) (fw : Firmware κ) : Prop :=
  ∀ hid, fw.hid = .ok hid → ∀ conn ∈ Firmware.firstHost fw.connMode, v.Current conn hid

/-- A host that connects has been handed nothing. -/
theorem current_next_connected {v : View} {fw : Firmware κ} {hid : Hid} (hok : fw.hid = .ok hid)
    (conn : Conn) (hidsErr : Int) :
    (v.next fw (.connected conn 0 .peripheral hidsErr)).Current conn hid := by
  have hsince : (v.next fw (.connected conn 0 .peripheral hidsErr)).since conn
      = hid.sent.length := by
    rw [next, if_pos ⟨rfl, rfl⟩, hok]
    exact Function.update_self _ _ _
  have hstart : (v.next fw (.connected conn 0 .peripheral hidsErr)).start conn = some hid.kbd := by
    rw [next, if_pos ⟨rfl, rfl⟩, hok]
    exact Function.update_self _ _ _
  have hnone : (v.next fw (.connected conn 0 .peripheral hidsErr)).handed conn hid = [] := by
    rw [handed, hsince, List.drop_length]
    rfl
  refine ⟨Nat.le_of_eq hsince, ?_, fun _ => hstart⟩
  rw [hnone]
  exact nofun

/-- The views of other hosts stay as they are. -/
theorem Current.next_connected {v : View} {fw : Firmware κ} {conn c : Conn} {hid : Hid}
    (hc : v.Current conn hid) (hne : conn ≠ c) (err : Byte) (role : Role) (hidsErr : Int) :
    (v.next fw (.connected c err role hidsErr)).Current conn hid := by
  have hsince : (v.next fw (.connected c err role hidsErr)).since conn = v.since conn := by
    rw [next]
    split
    · exact Function.update_of_ne hne _ _
    · rfl
  have hstart : (v.next fw (.connected c err role hidsErr)).start conn = v.start conn := by
    rw [next]
    split
    · exact Function.update_of_ne hne _ _
    · rfl
  have hhanded : (v.next fw (.connected c err role hidsErr)).handed conn hid
      = v.handed conn hid := by
    rw [handed, hsince, handed]
  exact ⟨hsince ▸ hc.since, hhanded ▸ hc.last, hhanded ▸ hstart ▸ hc.none⟩

theorem InView.step {sendErr : Nat → Int} {v : View} {fw fw' : Firmware κ} {e : Firmware.Event κ}
    (hin : v.InView fw) (hstep : Firmware.Stepped sendErr fw e fw') :
    (v.next fw e).InView fw' := by
  intro hid hok conn hfirst
  rw [hstep.hid] at hok
  have hfirst : Firmware.firstHost (fw.nextConns e) = some conn :=
    (hstep.conns 0 (by decide)).symm.trans hfirst
  cases e with
  | connected c err role hidsErr =>
    by_cases hcc : conn = c
    · by_cases hhost : err = 0 ∧ role = .peripheral
      · obtain ⟨rfl, rfl⟩ := hhost
        subst hcc
        exact current_next_connected hok conn hidsErr
      · -- a connection that failed, or the left half
        rw [Firmware.nextConns, if_neg fun h => hhost ⟨h.1, h.2.1⟩] at hfirst
        rw [next, if_neg hhost]
        exact hin hid hok conn hfirst
    · refine Current.next_connected (hin hid hok conn ?_) hcc err role hidsErr
      -- the first entry is not the one that the new host took
      rw [Firmware.nextConns] at hfirst
      split at hfirst
      · rw [Firmware.addConn_first] at hfirst
        split at hfirst
        · exact absurd (Option.some.inj hfirst).symm hcc
        · exact hfirst
      · exact hfirst
  | disconnected c role advErr =>
    refine hin hid hok conn ?_
    rw [Firmware.nextConns] at hfirst
    split at hfirst
    · rw [Firmware.removeConn_first] at hfirst
      split at hfirst
      · cases hfirst
      · exact hfirst
    · exact hfirst
  | turn pins =>
    rw [Firmware.nextHid] at hok
    split at hok
    · obtain ⟨hid₀, hok₀, hcalls⟩ := exceptBind_eq_ok hok
      exact createReports_inv (hin hid₀ hok₀ conn hfirst)
        (fun _ _ _ hc hone => createReport_current hfirst hc hone) hcalls
    · exact hin hid hok conn hfirst
  | _ => exact hin hid hok conn hfirst

end View

/-- The firmware, with the views of its hosts on the side. -/
def viewing (κ : Type u) (sendErr : Nat → Int) :
    Machine (Firmware κ × View) (Firmware.Event κ) :=
  (firmware κ sendErr).recording .zero View.next

/-- **The host's view**: in every state of every run, whatever the stack returns to the
reports, the host in the first entry has been shown the keyboard state if its view is
settled. -/
theorem host_view_of_settled (sendErr : Nat → Int) (es : List (Firmware.Event κ)) :
    (viewing κ sendErr).Always (fun s => ∀ hid, s.1.hid = .ok hid →
      ∀ conn ∈ Firmware.firstHost s.1.connMode,
        s.2.Settled conn hid → s.2.shown conn hid = keyReport hid.kbd) es := by
  refine Machine.AlwaysFrom.mono (P := fun s => s.2.InView s.1) ?_ ?_
  · refine Machine.alwaysFrom_of_step es ?_ ?_
    · -- no host is connected yet
      intro hid _ conn hfirst
      cases hfirst
    · intro s e t hin hstep
      obtain ⟨hfw, hnext⟩ := Machine.recording_step.mp hstep
      exact hnext ▸ hin.step (Firmware.stepped hfw)
  · intro s hin hid hok conn hfirst hsettled
    exact (hin hid hok conn hfirst).shown_of_settled hsettled

/-- The stack refuses the report of a press, and no later turn repeats it; and a host that
comes back while a key is down is never told about the key. -/
theorem host_view_stale :
    let press : List (Firmware.Event Nat) :=
      [.connected 1 0 .peripheral 0, .securityChanged 1 0, .turn (pinsOf 1), .turn (pinsOf 1),
        .turn (pinsOf 1)]
    let back : List (Firmware.Event Nat) :=
      press ++ [.disconnected 1 .peripheral 0, .connected 1 0 .peripheral 0,
        .securityChanged 1 0, .turn (pinsOf 1)]
    ¬(viewing Nat fun n => if n = 0 then -12 else 0).Along
      (fun s e t => s.1.Reports e → t.2.Agrees t.1) press ∧
    ¬(viewing Nat fun _ => 0).Along (fun s e t => s.1.Reports e → t.2.Agrees t.1) back := by
  decide +kernel

end BleKeyboard
