import BleKeyboard.Base.Snapshots
import BleKeyboard.Host.Stream
import BleKeyboard.Link.EndToEnd

/-!
# Keystrokes, out and back

A report says which keys are down, not which one has moved. Who compares it with the report before
gets the edges back on the base layer: every switch stands for one usage at most, and no two for
the same.

- `Reported.keystrokes`: the reports of one call of `call_key_report`, read in this way, are its
  edges;
- `host_reads_edges`: so are all that the stack is handed for a host from its connection on, those
  that it refuses included.
-/

namespace BleKeyboard

open Base
open Base.Edge

universe u

/-! ## What can be read off reports -/

/-- Does a report say that the usage is on? -/
def isOn (report : List Byte) (u : Usage) : Bool := decide (u ∈ inputUsages report)

/-- The usages of the keyboard page. -/
def keyboardUsages : List Usage := (List.range 256).map (Usage.mk keyboardPage)

theorem nodup_keyboardUsages : keyboardUsages.Nodup :=
  List.nodup_range.map fun _ _ h => (Usage.mk.inj h).2

/-- The usages that go on and off from one report to the next. -/
def keystrokes (start : List Byte) (reports : List (List Byte)) : List (Usage × Bool) :=
  changesAlong keyboardUsages (isOn start) (reports.map isOn)

/-- More reports are read from the last one on. -/
theorem keystrokes_append (start : List Byte) (rs ss : List (List Byte)) :
    keystrokes start (rs ++ ss)
      = keystrokes start rs ++ keystrokes (rs.getLast?.getD start) ss := by
  rw [keystrokes, List.map_append, changesAlong_append, List.getLast?_map, keystrokes, keystrokes]
  cases rs.getLast? <;> rfl

/-- What is to be read of an edge on the base layer. -/
def edgeKeystrokes (e : Edge Pos Byte) : List (Usage × Bool) :=
  (switchUsages 0 e.pos).map fun u => (u, e.down)

/-! ## Switches and usages -/

/-- A switch stands for one usage at most. -/
theorem switchUsages_cases {q : Pos} (hq : q.2 < 24) :
    switchUsages 0 q = [] ∨ ∃ u ∈ keyboardUsages, switchUsages 0 q = [u] := by
  have hall : ∀ lOrR, ∀ i < 24, (switchUsages 0 (lOrR, i)).length ≤ 1 ∧
      ∀ u ∈ switchUsages 0 (lOrR, i), u.page = keyboardPage ∧ u.id < 256 := by
    decide +kernel
  obtain ⟨hlength, husages⟩ := hall q.1 q.2 hq
  match hus : switchUsages 0 q with
  | [] => exact .inl rfl
  | [⟨page, id⟩] =>
    obtain ⟨rfl, hid⟩ := husages ⟨page, id⟩ (hus ▸ List.mem_singleton_self _)
    exact .inr ⟨_, List.mem_map.mpr ⟨id, List.mem_range.mpr hid, rfl⟩, rfl⟩
  | _ :: _ :: _ =>
    have hlength : (switchUsages 0 q).length ≤ 1 := hlength
    rw [hus, List.length_cons, List.length_cons] at hlength
    omega

/-- No two switches stand for the same usage. -/
theorem switchUsages_inj {p q : Pos} (hp : p.2 < 24) (hq : q.2 < 24) {u : Usage}
    (hup : u ∈ switchUsages 0 p) (huq : u ∈ switchUsages 0 q) : p = q := by
  have hall : ∀ a, ∀ i < 24, ∀ b, ∀ j < 24, ∀ u ∈ switchUsages 0 (a, i),
      u ∈ switchUsages 0 (b, j) → (a, i) = (b, j) := by
    decide +kernel
  exact hall p.1 p.2 hp q.1 q.2 hq u hup huq

/-! ## The keyboard state along a history -/

/-- The keyboard state is what a history on the base layer leaves. -/
structure OnHistory (h : History) (st : KeyboardState) : Prop where
  keys : st.keys = heldCodes h
  ctrl : st.ctrlKeysState = modMask (pressed h)
  base : ∀ q : Pos, q.2 < 24 → pressed h q = true → lastPress h q = some (keyCode 0 q)

theorem BaseInv.onHistory {s : KeyState × History × Board} (hs : BaseInv s) {hid : Hid}
    (hok : s.1.hid = .ok hid) : OnHistory s.2.1 hid.kbd := by
  obtain ⟨hid', hok', hkeys, hctrl⟩ := hs.keys
  obtain rfl := Except.ok.inj (hok.symm.trans hok')
  refine ⟨hkeys, hctrl, fun q hq hdown => ?_⟩
  rw [hs.sim.pressLayer q hq hdown, hs.atBase.pressLayer]

namespace OnHistory

variable {h : History} {st st' : KeyboardState} {c : Call}

theorem showsKeys (hon : OnHistory h st) : ShowsKeys (pressed h) st where
  mem_slots := fun _ hcode =>
    mem_slots_base hon.keys (fun q hq => hon.base q (mem_plainPositions.mp hq).1) hcode
  ctrl := hon.ctrl

/-- The usage of a switch is on exactly if the switch is down. -/
theorem isOn_eq (hon : OnHistory h st) {q : Pos} (hq : q.2 < 24) {u : Usage}
    (hu : u ∈ switchUsages 0 q) : isOn (keyReport st) u = pressed h q := by
  rw [Bool.eq_iff_iff, isOn, decide_eq_true_eq, hon.showsKeys.usages]
  constructor
  · rintro ⟨p, hp, hdown, hup⟩
    exact switchUsages_inj hp hq hup hu ▸ hdown
  · intro hdown
    exact ⟨q, hq, hdown, hu⟩

/-- An edge moves the keyboard state on to the longer history. -/
theorem edge (hon : OnHistory h st) (hpos : c.position < 24) (htoggle : c.down = !pressed h c.pos)
    (hmoves : Moves 0 c st st') : OnHistory (h ++ [c.edge 0]) st' where
  keys := by
    have hkeys := hmoves.keys
    by_cases hplain : isPlain c.pos = true
    · have hS : (c.edge 0).pos ∈ plainPositions := mem_plainPositions.mpr ⟨hpos, hplain⟩
      rw [if_pos hplain] at hkeys
      cases hdown : c.down with
      | true =>
        rw [if_pos hdown, hon.keys] at hkeys
        have hup : pressed h (c.edge 0).pos = false := by
          rw [hdown] at htoggle
          exact (Bool.not_eq_true' _).mp htoggle.symm
        exact hkeys.trans (heldCodes_press (e := c.edge 0) hS hup hdown).symm
      | false =>
        rw [if_neg (by rw [hdown]; exact Bool.false_ne_true), hon.keys] at hkeys
        have hheld : pressed h (c.edge 0).pos = true := by
          rw [hdown] at htoggle
          exact (Bool.not_eq_false' _).mp htoggle.symm
        have hcode : lastPress h (c.edge 0).pos = some (c.edge 0).code := hon.base c.pos hpos hheld
        have hrelease := heldCodes_release (e := c.edge 0) hS hheld hdown hcode
        rw [← removeKey_addKey (keyCode 0 c.pos) st'.keys, ← hkeys, hrelease]
        exact removeKey_addKey _ _
    · rw [if_neg hplain] at hkeys
      have hS : (c.edge 0).pos ∉ plainPositions := fun hmem => hplain (mem_plainPositions.mp hmem).2
      rw [hkeys, hon.keys, heldCodes_of_not_mem hS]
  ctrl := by
    rw [hmoves.ctrl, hon.ctrl, ctrlAfter_zero _ hpos, pressed_append_update]
    rfl
  base := by
    intro q hq hdown
    rw [pressed_append_singleton] at hdown
    rw [lastPress_append_singleton]
    by_cases hcq : (c.edge 0).pos = q
    · rw [if_pos hcq] at hdown
      rw [if_pos ⟨hcq, hdown⟩, ← hcq]
      rfl
    · rw [if_neg hcq] at hdown
      rw [if_neg fun h => hcq h.1]
      exact hon.base q hq hdown

/-- **One edge** is what can be read off two reports. -/
theorem changes_eq (hon : OnHistory h st) (hon' : OnHistory (h ++ [c.edge 0]) st')
    (hpos : c.position < 24) (htoggle : c.down = !pressed h c.pos) :
    changes keyboardUsages (isOn (keyReport st)) (isOn (keyReport st'))
      = edgeKeystrokes (c.edge 0) := by
  -- the usages of other switches stay as they are
  have hother : ∀ u ∉ switchUsages 0 c.pos, isOn (keyReport st') u = isOn (keyReport st) u := by
    intro u hu
    rw [Bool.eq_iff_iff, isOn, isOn, decide_eq_true_eq, decide_eq_true_eq, hon.showsKeys.usages,
      hon'.showsKeys.usages]
    refine exists_congr fun q => and_congr_right fun _ => and_congr_left fun huq => ?_
    have hne : (c.edge 0).pos ≠ q := by
      rintro rfl
      exact hu huq
    rw [pressed_append_singleton, if_neg hne]
  rcases switchUsages_cases (q := c.pos) hpos with hnone | ⟨u, hmem, hone⟩
  · have hsame : isOn (keyReport st') = isOn (keyReport st) := by
      funext u
      exact hother u (by rw [hnone]; exact List.not_mem_nil)
    have hedge : edgeKeystrokes (c.edge 0) = [] := congrArg (List.map _) hnone
    rw [hsame, changes_self, hedge]
  · have hu : u ∈ switchUsages 0 c.pos := by
      rw [hone]
      exact List.mem_singleton_self u
    have hedge : edgeKeystrokes (c.edge 0) = [(u, c.down)] := congrArg (List.map _) hone
    rw [hedge]
    refine changes_eq_singleton nodup_keyboardUsages hmem ?_ ?_
    · rw [hon.isOn_eq (q := c.pos) hpos hu, htoggle, Bool.not_not]
    · funext x
      by_cases hx : x = u
      · rw [hx, Function.update_self, hon'.isOn_eq (q := c.pos) hpos hu, pressed_append_singleton]
        exact if_pos rfl
      · rw [Function.update_of_ne hx]
        exact hother x (by rw [hone, List.mem_singleton]; exact hx)

end OnHistory

/-! ## One call of `call_key_report` -/

/-- The data of the reports for a host. -/
def dataFor (conn : Conn) (rs : List SentReport) : List (List Byte) :=
  (rs.filter fun r => r.conn == conn).map SentReport.data

theorem dataFor_append (conn : Conn) (rs ss : List SentReport) :
    dataFor conn (rs ++ ss) = dataFor conn rs ++ dataFor conn ss := by
  rw [dataFor, List.filter_append, List.map_append]
  rfl

/-- The reports of one edge are all the same for the first host, and there is one. -/
theorem FannedOut.keystrokes {conn : Conn} {bootMode : Bool} {hosts : List (Conn × Bool)}
    {start data : List Byte} {rs : List SentReport}
    (h : FannedOut ((conn, bootMode) :: hosts) data rs) :
    keystrokes start (dataFor conn rs) = changes keyboardUsages (isOn start) (isOn data) ∧
      (dataFor conn rs).getLast?.getD start = data := by
  have hdata : ∀ d ∈ dataFor conn rs, d = data := by
    intro d hd
    obtain ⟨r, hr, rfl⟩ := List.mem_map.mp hd
    exact h.data r (List.mem_of_mem_filter hr)
  have hne : dataFor conn rs ≠ [] := by
    obtain ⟨r, hr, hhost⟩ := h.mem_of_head
    have hconn : r.conn = conn := congrArg Prod.fst hhost
    exact List.ne_nil_of_mem
      (List.mem_map_of_mem (List.mem_filter.mpr ⟨hr, beq_iff_eq.mpr hconn⟩))
  constructor
  · refine changesAlong_same ?_ fun hnil => hne (List.map_eq_nil_iff.mp hnil)
    intro s hs
    obtain ⟨d, hd, rfl⟩ := List.mem_map.mp hs
    rw [hdata d hd]
  · rw [List.getLast?_eq_some_getLast hne, Option.getD_some]
    exact hdata _ (List.getLast_mem hne)

/-- **One call**: its edges can be read off the reports for the first host, in order. -/
theorem Reported.keystrokes {conn : Conn} {bootMode : Bool} {hosts : List (Conn × Bool)}
    {st st' : KeyboardState} {cs : List Call} {rs : List SentReport}
    (h : Reported 0 ((conn, bootMode) :: hosts) st cs rs st') {hist : History}
    (hon : OnHistory hist st) (hpos : ∀ c ∈ cs, c.position < 24)
    (halt : Alternates (hist ++ edges 0 cs)) :
    keystrokes (keyReport st) (dataFor conn rs) = (edges 0 cs).flatMap edgeKeystrokes := by
  induction h generalizing hist with
  | done st => rfl
  | @layerKey st st' c cs rs hlayer _ ih =>
    rw [edges_cons, ← List.singleton_append, ← List.append_assoc] at halt
    have htoggle := ((alternates_append_singleton _ _).mp halt.of_append).2
    have hc := hpos c List.mem_cons_self
    -- a layer key moves nothing, and stands for no usage
    have hmoves : Moves 0 c st st := by
      have hplain : ¬isPlain c.pos = true := fun hplain =>
        Bool.false_ne_true ((isPlain_iff.mp hplain).1.symm.trans hlayer)
      exact ⟨(if_pos hlayer).symm, by rw [if_neg hplain]⟩
    have hedge : edgeKeystrokes (c.edge 0) = [] := by
      have hnone : switchUsages 0 c.pos = [] := if_pos hlayer
      exact congrArg (List.map _) hnone
    rw [edges_cons, List.flatMap_cons, hedge, List.nil_append]
    exact ih (hon.edge hc htoggle hmoves) (fun d hd => hpos d (List.mem_cons_of_mem _ hd)) halt
  | @edge st st₁ st' c cs block rs _ hmoves hsent _ ih =>
    rw [edges_cons, ← List.singleton_append, ← List.append_assoc] at halt
    have htoggle := ((alternates_append_singleton _ _).mp halt.of_append).2
    have hc := hpos c List.mem_cons_self
    have hon₁ := hon.edge hc htoggle hmoves
    obtain ⟨hblock, hlast⟩ :
        BleKeyboard.keystrokes (keyReport st) (dataFor conn block) = _ ∧
          (dataFor conn block).getLast?.getD (keyReport st) = _ := hsent.keystrokes
    rw [dataFor_append, keystrokes_append, hblock, hlast, hon.changes_eq hon₁ hc htoggle,
      ih hon₁ (fun d hd => hpos d (List.mem_cons_of_mem _ hd)) halt, edges_cons, List.flatMap_cons]

/-! ## Runs -/

section

variable {κ : Type u} {fw : Firmware κ} {e : Firmware.Event κ} {conn : Conn}

/-- The host connects, as far as the view of it goes. -/
def Firmware.Event.Connects (conn : Conn) (e : Firmware.Event κ) : Prop :=
  ∃ hidsErr, e = .connected conn 0 .peripheral hidsErr

/-- The first entry holds the host that it held, or one that has just connected. -/
theorem Firmware.firstHost_nextConns (h : firstHost (fw.nextConns e) = some conn)
    (hnot : ¬e.Connects conn) : firstHost fw.connMode = some conn := by
  cases e with
  | connected c err role hidsErr =>
    rw [nextConns] at h
    split at h
    · next hhost =>
      rw [addConn_first] at h
      split at h
      · obtain ⟨rfl, rfl, -⟩ := hhost
        exact absurd ⟨hidsErr, by rw [Option.some.inj h]⟩ hnot
      · exact h
    · exact h
  | disconnected c role advErr =>
    rw [nextConns] at h
    split at h
    · rw [removeConn_first] at h
      split at h
      · cases h
      · exact h
    · exact h
  | _ => exact h

/-- A host that does not connect keeps its view. -/
theorem View.next_of_not_connects (v : View) (hnot : ¬e.Connects conn) :
    (v.next fw e).since conn = v.since conn ∧ (v.next fw e).start conn = v.start conn := by
  cases e with
  | connected c err role hidsErr =>
    rw [next]
    split
    · next hhost =>
      obtain ⟨rfl, rfl⟩ := hhost
      have hne : conn ≠ c := by
        rintro rfl
        exact hnot ⟨hidsErr, rfl⟩
      exact ⟨Function.update_of_ne hne _ _, Function.update_of_ne hne _ _⟩
    · exact ⟨rfl, rfl⟩
  | _ => exact ⟨rfl, rfl⟩

/-- The hosts that reports go to, when the first entry is taken. -/
theorem hostsOf_of_firstHost {modes : ConnModes} (hfirst : Firmware.firstHost modes = some conn) :
    ∃ bootMode hosts, hostsOf modes = (conn, bootMode) :: hosts := by
  obtain ⟨⟨ms⟩, hms⟩ := modes
  match ms, hms with
  | m :: ms, _ =>
    have hm : m.conn = some conn := hfirst
    refine ⟨m.inBootMode, ms.filterMap ConnMode.host, List.filterMap_cons_some ?_⟩
    rw [ConnMode.host, hm]
    rfl

end

/-- The edges that have been dispatched since each host last connected, after an event. -/
def nextEdges {κ : Type u} (since : Conn → History) (fw : Firmware κ) :
    Firmware.Event κ → Conn → History
  | .connected conn err role _ =>
    if err = 0 ∧ role = .peripheral then Function.update since conn [] else since
  | .turn _ =>
    if fw.reporting then fun conn => since conn ++ fw.poll.edges fw.kbds.keystates else since
  | _ => since

theorem nextEdges_of_not_connects {κ : Type u} {since : Conn → History} {fw : Firmware κ}
    {e : Firmware.Event κ} {conn : Conn} (hnot : ¬e.Connects conn) :
    nextEdges since fw e conn = Firmware.nextHistory (since conn) fw e := by
  cases e with
  | connected c err role hidsErr =>
    rw [nextEdges]
    split
    · next hhost =>
      obtain ⟨rfl, rfl⟩ := hhost
      have hne : conn ≠ c := by
        rintro rfl
        exact hnot ⟨hidsErr, rfl⟩
      exact Function.update_of_ne hne _ _
    · rfl
  | turn pins =>
    rw [nextEdges, Firmware.nextHistory]
    by_cases hrep : fw.reporting = true
    · rw [if_pos hrep]
      exact (if_pos hrep).symm
    · rw [if_neg hrep]
      exact (if_neg hrep).symm
  | _ => rfl

/-- The reports that have been handed to the stack for the host, taken or refused, read as the
edges. -/
def ReadsEdges (v : View) (since : Conn → History) (conn : Conn) (hid : Hid) : Prop :=
  ∃ st, v.start conn = some st ∧
    keystrokes (keyReport st) ((v.handed conn hid).map SentReport.data)
      = (since conn).flatMap edgeKeystrokes

section

variable {κ : Type u} {sendErr : Nat → Int} {fw fw' : Firmware κ} {e : Firmware.Event κ}
  {v : View} {since : Conn → History} {conn : Conn} {hid hid' : Hid}

/-- For a host that connects there is nothing to read yet. -/
theorem ReadsEdges.connects (hconnects : e.Connects conn) (hok : fw.hid = .ok hid) :
    ReadsEdges (v.next fw e) (nextEdges since fw e) conn hid := by
  obtain ⟨hidsErr, rfl⟩ := hconnects
  refine ⟨hid.kbd, ?_, ?_⟩
  · rw [View.next, if_pos ⟨rfl, rfl⟩, hok]
    exact Function.update_self _ _ _
  · have hsince : (v.next fw (.connected conn 0 .peripheral hidsErr)).since conn
        = hid.sent.length := by
      rw [View.next, if_pos ⟨rfl, rfl⟩, hok]
      exact Function.update_self _ _ _
    have hnil : nextEdges since fw (.connected conn 0 .peripheral hidsErr) conn = [] := by
      rw [nextEdges, if_pos ⟨rfl, rfl⟩]
      exact Function.update_self _ _ _
    rw [View.handed, hsince, List.drop_length, hnil]
    rfl

/-- **One turn**: its edges can be read off the reports for the first host. -/
theorem ReadsEdges.turn (hread : ReadsEdges v since conn hid) (hcurrent : v.Current conn hid)
    {bootMode : Bool} {hosts : List (Conn × Bool)} {cs : List Call} {rs : List SentReport}
    (hsent : hid'.sent = hid.sent ++ rs)
    (hreported : Reported 0 ((conn, bootMode) :: hosts) hid.kbd cs rs hid'.kbd) {hist : History}
    (hon : OnHistory hist hid.kbd) (hpos : ∀ c ∈ cs, c.position < 24)
    (halt : Alternates (hist ++ edges 0 cs)) :
    ReadsEdges v (fun conn => since conn ++ edges 0 cs) conn hid' := by
  obtain ⟨st, hst, heq⟩ := hread
  refine ⟨st, hst, ?_⟩
  have hhanded : (v.handed conn hid').map SentReport.data
      = (v.handed conn hid).map SentReport.data ++ dataFor conn rs := by
    rw [View.handed, hsent, List.drop_append_of_le_length hcurrent.since, List.filter_append,
      List.map_append]
    rfl
  -- the last report that the host has, or the state when it connected, is the state now
  have hlast : ((v.handed conn hid).map SentReport.data).getLast?.getD (keyReport st)
      = keyReport hid.kbd := by
    rw [List.getLast?_map]
    cases hr : (v.handed conn hid).getLast? with
    | none =>
      rw [Option.some.inj (hst.symm.trans (hcurrent.none hr))]
      rfl
    | some r => exact hcurrent.last r hr
  rw [hhanded, keystrokes_append, hlast, heq, hreported.keystrokes hon hpos halt,
    List.flatMap_append]

/-- **One event** on the base layer. -/
theorem ReadsEdges.step (hshows : fw.ShowsPoll) (hview : v.InView fw)
    (hread : ∀ hid, fw.hid = .ok hid → ∀ conn ∈ Firmware.firstHost fw.connMode,
      ReadsEdges v since conn hid)
    (hbase : fw.OnBase e) (hstep : fw.step sendErr e = some fw') (hok : fw'.hid = .ok hid')
    (hfirst : Firmware.firstHost fw'.connMode = some conn) :
    ReadsEdges (v.next fw e) (nextEdges since fw e) conn hid' := by
  have hs := Firmware.stepped hstep
  have hsends := Firmware.sends hstep
  by_cases hconnects : e.Connects conn
  · refine ReadsEdges.connects hconnects ?_
    obtain ⟨hidsErr, rfl⟩ := hconnects
    exact hs.hid.symm.trans hok
  · have hfirst₀ : Firmware.firstHost fw.connMode = some conn :=
      Firmware.firstHost_nextConns ((hs.conns 0 (by decide)).symm.trans hfirst) hconnects
    obtain ⟨hsince, hstart⟩ :
        (v.next fw e).since conn = _ ∧ (v.next fw e).start conn = _ :=
      v.next_of_not_connects hconnects
    have hedges : nextEdges since fw e conn = _ := nextEdges_of_not_connects hconnects
    -- the record of this host, and no other, matters
    have hcongr : ∀ hist, Firmware.nextHistory (since conn) fw e = hist →
        ReadsEdges v (fun _ => hist) conn hid' →
        ReadsEdges (v.next fw e) (nextEdges since fw e) conn hid' := by
      rintro hist rfl ⟨st, hst, heq⟩
      refine ⟨st, hstart.trans hst, ?_⟩
      rw [View.handed, hsince, hedges]
      exact heq
    unfold Firmware.Sends at hsends
    by_cases hrep : fw.Reports e
    · cases e with
      | turn pins =>
        rw [if_pos hrep] at hsends
        obtain ⟨hid, rs, hok₀, hsent, hreported⟩ := hsends hid' hok
        obtain ⟨hist, b, hinv⟩ := hshows
        obtain ⟨hlayerKey, -⟩ := hbase hrep
        have hlayer : fw.poll.selectLayer fw.kbds.keystates = 0 :=
          (hinv.sim.layer_eq ⟨fw.connMode, fw.kbds.keystates, pins⟩).symm.trans
            (hinv.atBase.layer_eq hlayerKey)
        obtain ⟨bootMode, hosts, hhosts⟩ := hostsOf_of_firstHost hfirst₀
        have halt := hinv.sim.inStep.alternates_after_call fw.kbds.keystates
        rw [Poll.edges, hlayer] at halt
        rw [hlayer, hhosts] at hreported
        have hturn := (hread hid hok₀ conn hfirst₀).turn (hview hid hok₀ conn hfirst₀) hsent
          hreported (hinv.onHistory hok₀) (fun c => fw.poll.position_lt_of_mem_calls) halt
        refine hcongr _ ?_ hturn
        rw [Firmware.nextHistory, if_pos hrep, Poll.edges, hlayer]
      | _ => cases hrep
    · rw [if_neg hrep] at hsends
      refine hcongr _ ?_ (hread hid' (hsends ▸ hok) conn hfirst₀)
      rw [Firmware.nextHistory, if_neg hrep]

end

end BleKeyboard
