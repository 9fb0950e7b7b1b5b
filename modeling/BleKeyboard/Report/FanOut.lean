import BleKeyboard.Firmware.Report

/-!
# One report to all hosts

`key_report_send` goes through `conn_mode` and hands the keyboard state to one host after the
other, until the stack refuses it.

- `FannedOut`: reports of this form;
- `keyReportSendLoop_fannedOut`: the loop sends such reports.
-/

namespace BleKeyboard

/-- The host of an entry, with its protocol mode. -/
def ConnMode.host (m : ConnMode) : Option (Conn × Bool) := m.conn.map (·, m.inBootMode)

/-- The hosts that are connected, in the order of their entries. -/
def hostsOf (modes : ConnModes) : List (Conn × Bool) := modes.toList.filterMap ConnMode.host

/-- The host that a report is for, and the mode it is sent in. -/
def SentReport.host (r : SentReport) : Conn × Bool := (r.conn, r.bootMode)

/-- The same data to one host after the other, until the stack refuses it. -/
structure FannedOut (hosts : List (Conn × Bool)) (data : List Byte) (rs : List SentReport) :
    Prop where
  data : ∀ r ∈ rs, r.data = data
  addressed : rs.map SentReport.host <+: hosts
  /-- Only the last one may have been refused. -/
  accepted : ∀ r ∈ rs.dropLast, r.err = 0
  complete : (∀ r ∈ rs, r.err = 0) → rs.map SentReport.host = hosts

namespace FannedOut

variable {hosts : List (Conn × Bool)} {data : List Byte} {rs : List SentReport}

theorem nil (data : List Byte) : FannedOut [] data [] :=
  ⟨nofun, List.prefix_rfl, nofun, fun _ => rfl⟩

/-- The first host refuses the report. -/
theorem refused {r : SentReport} (hr : r.err ≠ 0) (hosts : List (Conn × Bool)) :
    FannedOut (r.host :: hosts) r.data [r] where
  data := by
    intro r' hr'
    rw [List.mem_singleton.mp hr']
  addressed := (List.prefix_cons_inj _).mpr List.nil_prefix
  accepted := nofun
  complete := fun hall => absurd (hall r (List.mem_singleton_self r)) hr

/-- The first host takes it. -/
theorem cons {r : SentReport} (hr : r.err = 0) (h : FannedOut hosts r.data rs) :
    FannedOut (r.host :: hosts) r.data (r :: rs) where
  data := by
    intro r' hr'
    rcases List.mem_cons.mp hr' with rfl | hr'
    · rfl
    · exact h.data r' hr'
  addressed := (List.prefix_cons_inj _).mpr h.addressed
  accepted := by
    intro r' hr'
    cases rs with
    | nil => cases hr'
    | cons r₁ rs =>
      rw [List.dropLast_cons_cons] at hr'
      rcases List.mem_cons.mp hr' with rfl | hr'
      · exact hr
      · exact h.accepted r' hr'
  complete := by
    intro hall
    rw [List.map_cons, h.complete fun r' hr' => hall r' (List.mem_cons_of_mem _ hr')]

/-- The first host is always among them. -/
theorem mem_of_head {host : Conn × Bool} (h : FannedOut (host :: hosts) data rs) :
    ∃ r ∈ rs, r.host = host := by
  cases rs with
  | nil => cases h.complete nofun
  | cons r rs =>
    obtain ⟨rest, hrest⟩ := h.addressed
    rw [List.map_cons, List.cons_append] at hrest
    exact ⟨r, List.mem_cons_self, (List.cons.inj hrest).1⟩

end FannedOut

/-! ## The loop of `key_report_send` -/

section

variable (sendErr : Nat → Int)

@[simp] theorem keyReportSendLoop_kbd (ms : List ConnMode) (hid : Hid) :
    (keyReportSendLoop sendErr ms hid).2.kbd = hid.kbd := by
  induction ms generalizing hid with
  | nil => rfl
  | cons m ms ih =>
    rw [keyReportSendLoop]
    cases m.conn with
    | none => exact ih hid
    | some conn =>
      show (if _ then _ else _ : Int × Hid).2.kbd = hid.kbd
      split
      · rfl
      · exact ih _

/-- Sending a report leaves the keyboard state alone. -/
@[simp] theorem keyReportSend_kbd (modes : ConnModes) (hid : Hid) :
    (keyReportSend sendErr modes hid).2.kbd = hid.kbd :=
  keyReportSendLoop_kbd sendErr modes.toList hid

/-- What the loop sends. -/
theorem keyReportSendLoop_fannedOut (ms : List ConnMode) (hid : Hid) :
    ∃ rs, (keyReportSendLoop sendErr ms hid).2.sent = hid.sent ++ rs ∧
      FannedOut (ms.filterMap ConnMode.host) (keyReport hid.kbd) rs := by
  induction ms generalizing hid with
  | nil => exact ⟨[], (List.append_nil _).symm, .nil _⟩
  | cons m ms ih =>
    cases hm : m.conn with
    | none =>
      have hloop : keyReportSendLoop sendErr (m :: ms) hid = keyReportSendLoop sendErr ms hid := by
        rw [keyReportSendLoop, hm]
      rw [hloop, List.filterMap_cons_none (by rw [ConnMode.host, hm]; rfl)]
      exact ih hid
    | some conn =>
      let r : SentReport := ⟨conn, m.inBootMode, keyReport hid.kbd, sendErr hid.sent.length⟩
      have hloop : keyReportSendLoop sendErr (m :: ms) hid
          = if r.err ≠ 0 then (r.err, { hid with sent := hid.sent ++ [r] })
            else keyReportSendLoop sendErr ms { hid with sent := hid.sent ++ [r] } := by
        rw [keyReportSendLoop, hm]
        rfl
      have hhost : m.host = some r.host := by
        rw [ConnMode.host, hm]
        rfl
      rw [hloop, List.filterMap_cons_some hhost]
      by_cases hr : r.err ≠ 0
      · rw [if_pos hr]
        exact ⟨[r], rfl, .refused hr _⟩
      · rw [if_neg hr]
        obtain ⟨rs, hsent, hrs⟩ := ih { hid with sent := hid.sent ++ [r] }
        refine ⟨r :: rs, ?_, .cons (not_not.mp hr) hrs⟩
        rw [hsent, List.append_assoc, List.singleton_append]

/-- Every report of the loop carries the keyboard state, and there is one for the host in the first
entry. -/
theorem keyReportSendLoop_sent (conn : Conn) (ms : List ConnMode) (hid : Hid) :
    ∃ rs, (keyReportSendLoop sendErr ms hid).2.sent = hid.sent ++ rs ∧
      (∀ r ∈ rs, r.data = keyReport hid.kbd) ∧
      ∀ m ∈ ms.head?, m.conn = some conn → ∃ r ∈ rs, r.conn = conn := by
  obtain ⟨rs, hsent, hrs⟩ := keyReportSendLoop_fannedOut sendErr ms hid
  refine ⟨rs, hsent, hrs.data, ?_⟩
  intro m hm hconn
  obtain ⟨ms, rfl⟩ := List.head?_eq_some_iff.mp hm
  have hhost : m.host = some (conn, m.inBootMode) := by
    rw [ConnMode.host, hconn]
    rfl
  rw [List.filterMap_cons_some hhost] at hrs
  obtain ⟨r, hr, hr'⟩ := hrs.mem_of_head
  exact ⟨r, hr, congrArg Prod.fst hr'⟩

end

end BleKeyboard
