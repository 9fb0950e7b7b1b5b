import BleKeyboard.Host.Stream
import BleKeyboard.Host.ProtocolModes

/-!
# Whom a report reaches

`conn_mode` stands for the map of the registered hosts (`Firmware.standsFor_nextHosts`), and a
report goes through its entries one after the other (`createReports_reported`). Together: what
an edge sends goes to registered hosts only, to each at most once and in its own protocol mode,
and to all of them unless the stack refuses it.
-/

namespace BleKeyboard

open Base

universe u

/-- The reports of one edge, as the registered hosts see them. -/
structure Reaches (hosts : Hosts) (rs : List SentReport) : Prop where
  data : ∃ data, ∀ r ∈ rs, r.data = data
  registered : ∀ r ∈ rs, hosts.lookup r.conn = some r.bootMode
  once : (rs.map SentReport.conn).Nodup
  /-- Only the last one may have been refused. -/
  accepted : ∀ r ∈ rs.dropLast, r.err = 0
  complete : (∀ r ∈ rs, r.err = 0) → ∀ conn ∈ hosts, conn ∈ rs.map SentReport.conn

/-- To fan out over the entries is to reach the hosts that they stand for. -/
theorem FannedOut.reaches {modes : ConnModes} {hosts : Hosts} {data : List Byte}
    {rs : List SentReport} (h : FannedOut (hostsOf modes) data rs)
    (hstands : modes.StandsFor hosts) : Reaches hosts rs where
  data := ⟨data, h.data⟩
  registered := by
    intro r hr
    exact hstands.mem_entries.mp (h.addressed.subset (List.mem_map_of_mem hr))
  once := by
    have hconns : rs.map SentReport.conn = (rs.map SentReport.host).map Prod.fst := by
      rw [List.map_map]
      rfl
    rw [hconns]
    exact hstands.nodup_entries.sublist (h.addressed.sublist.map _)
  accepted := h.accepted
  complete := by
    intro hall conn hconn
    obtain ⟨bootMode, hmode⟩ := Finmap.mem_iff.mp hconn
    have hmem : (conn, bootMode) ∈ rs.map SentReport.host := by
      rw [h.complete hall]
      exact hstands.mem_entries.mpr hmode
    obtain ⟨r, hr, heq⟩ := List.mem_map.mp hmem
    exact List.mem_map.mpr ⟨r, hr, congrArg Prod.fst heq⟩

/-- The edges that are reported: all but those of the layer keys. -/
def reportedEdges (cs : List Call) : Nat := cs.countP fun c => !isLayerKey c.pos

/-- Every edge that is reported sends a block of reports, to the hosts of the entries. -/
theorem Reported.blocks {layer : Fin 4} {hosts : List (Conn × Bool)} {st st' : KeyboardState}
    {cs : List Call} {rs : List SentReport} (h : Reported layer hosts st cs rs st') :
    ∃ blocks : List (List SentReport), rs = blocks.flatten ∧
      blocks.length = reportedEdges cs ∧ ∀ block ∈ blocks, ∃ data, FannedOut hosts data block := by
  induction h with
  | done st => exact ⟨[], rfl, rfl, nofun⟩
  | layerKey hlayer rest ih =>
    obtain ⟨blocks, hrs, hlength, hfanned⟩ := ih
    refine ⟨blocks, hrs, ?_, hfanned⟩
    rw [hlength, reportedEdges, reportedEdges, List.countP_cons, hlayer]
    rfl
  | @edge st st₁ st' c cs block rs hlayer hmoves hsent rest ih =>
    obtain ⟨blocks, hrs, hlength, hfanned⟩ := ih
    refine ⟨block :: blocks, ?_, ?_, ?_⟩
    · rw [hrs, List.flatten_cons]
    · rw [List.length_cons, hlength, reportedEdges, reportedEdges, List.countP_cons, hlayer]
      rfl
    · intro b hb
      rcases List.mem_cons.mp hb with rfl | hb
      · exact ⟨_, hsent⟩
      · exact hfanned b hb

namespace Firmware

variable {κ : Type u} {sendErr : Nat → Int}

/-- The edges that an event reports. -/
def edgesReported (fw : Firmware κ) (e : Event κ) : Nat :=
  if fw.Reports e then reportedEdges (fw.poll.calls fw.kbds.keystates) else 0

/-- What an event sends reaches the registered hosts, edge by edge. -/
def SendsTo (hosts : Hosts) (fw : Firmware κ) (e : Event κ) (fw' : Firmware κ) : Prop :=
  ∀ hid hid', fw.hid = .ok hid → fw'.hid = .ok hid' → ∃ blocks : List (List SentReport),
    hid'.sent = hid.sent ++ blocks.flatten ∧ blocks.length = fw.edgesReported e ∧
      ∀ block ∈ blocks, Reaches hosts block

/-- **One event** sends to the hosts that are registered. -/
theorem sendsTo {fw fw' : Firmware κ} {e : Event κ} {hosts : Hosts}
    (h : fw.step sendErr e = some fw') (hstands : fw.connMode.StandsFor hosts) :
    SendsTo hosts fw e fw' := by
  intro hid hid' hok hok'
  have hsends := sends h
  unfold Sends at hsends
  unfold edgesReported
  by_cases hrep : fw.Reports e
  · rw [if_pos hrep] at hsends ⊢
    obtain ⟨hid₀, rs, hok₀, hsent, hreported⟩ := hsends hid' hok'
    obtain rfl := Except.ok.inj (hok.symm.trans hok₀)
    obtain ⟨blocks, hblocks, hlength, hfanned⟩ := hreported.blocks
    refine ⟨blocks, hblocks ▸ hsent, hlength, ?_⟩
    intro block hblock
    obtain ⟨data, hdata⟩ := hfanned block hblock
    exact hdata.reaches hstands
  · rw [if_neg hrep] at hsends ⊢
    obtain rfl := Except.ok.inj (hok.symm.trans (hsends.symm.trans hok'))
    exact ⟨[], (List.append_nil _).symm, rfl, nofun⟩

end Firmware

/-- **Every report reaches its hosts**: on every run in which HIDS registers no host twice and no
more than there is room for, as long as no call has faulted, an event sends one block of reports
for each edge that it reports, and a block goes to hosts that are registered at that time, to
none twice, in the protocol mode of each, and to all of them unless the stack refuses one. -/
theorem reports_reach_hosts {κ : Type u} (sendErr : Nat → Int) (es : List (Firmware.Event κ)) :
    (registering κ sendErr).Along (fun s e t => Firmware.SendsTo s.2 s.1 e t.1) es := by
  refine Machine.alongFrom_of_inv (I := fun s => s.1.connMode.StandsFor s.2) es ?_ ?_
  · refine .empty fun i => ?_
    show (Vector.replicate hidsMaxClientCount (⟨none, false⟩ : ConnMode))[i.val].conn = none
    rw [Vector.getElem_replicate]
  · rintro ⟨fw, hosts⟩ e ⟨fw', hosts'⟩ hstands ht
    obtain ⟨hreg, hstep, rfl⟩ := Machine.recording_under_step.mp ht
    refine ⟨?_, Firmware.sendsTo hstep hstands⟩
    show fw'.connMode.StandsFor _
    rw [Firmware.step_connMode hstep]
    exact Firmware.standsFor_nextHosts hstands hreg

end BleKeyboard
