import BleKeyboard.Host.Secured

/-!
# The main loop looks at the first entry only

`conn_mode` has an entry for each of `CONFIG_BT_HIDS_MAX_CLIENT_COUNT` hosts, and the main
loop reports keys only if its first entry is occupied. What makes that enough lies outside
the table: a host connects only while advertising is active, which ends it, and only
`advertising_start` makes it active again, when a host has gone.

`gate_sound`: there is at most one host, none while advertising is active, and the first
entry is occupied whenever any entry is.
-/

namespace BleKeyboard

open Base

universe u

variable {κ : Type u}

/-! ## The table with its first entry free -/

namespace Firmware

/-- A connection goes into the first entry if that is free, and moves no other. -/
theorem addConn_conn {modes : ConnModes} (hfree : firstHost modes = none) (conn : Conn) {i : Nat}
    (hi : i < hidsMaxClientCount) :
    (addConn conn modes)[i].conn = if i = 0 then some conn else modes[i].conn := by
  obtain ⟨⟨ms⟩, hms⟩ := modes
  match ms, hms with
  | m :: ms, hms =>
    have hm : m.conn = none := hfree
    have hinsert : insertConn conn (m :: ms) = ⟨some conn, false⟩ :: ms := if_pos hm
    have hlt : i < (insertConn conn (m :: ms)).length := by
      rw [length_insertConn]
      exact Nat.lt_of_lt_of_eq hi hms.symm
    show ((insertConn conn (m :: ms))[i]).conn = _
    simp only [hinsert]
    cases i <;> rfl

/-- An entry of `conn_mode` is occupied. -/
def AnyHost (modes : ConnModes) : Prop :=
  ∃ i, ∃ hi : i < hidsMaxClientCount, modes[i].conn.isSome = true

end Firmware

/-! ## Advertising and hosts -/

/-- What the stack knows: whether advertising is active, and the peripheral-role
connections that exist. -/
structure Air where
  advertising : Bool
  hosts : List Conn

namespace Air

/-- A host connects only while advertising is active, and only a host that is there
disconnects. -/
def Allows (a : Air) : Firmware.Event κ → Prop
  | .connected _ err role _ => err = 0 → role = .peripheral → a.advertising = true
  | .disconnected conn role _ => role = .peripheral → conn ∈ a.hosts
  | _ => True

instance (a : Air) : DecidablePred (a.Allows (κ := κ))
  | .connected _ _ _ _ => inferInstanceAs (Decidable (_ → _ → _))
  | .disconnected _ _ _ => inferInstanceAs (Decidable (_ → _))
  | .scanConnecting _ | .securityChanged _ _ | .pmEvt _ _ | .discoveryCompleted _ _ _
  | .notified _ | .readResponse _ _ | .readWork | .periodicResponse _ _ | .passkeyConfirm _ _
  | .authCancel _ | .pairingFailed _ | .pairingWork | .turn _ => .isTrue trivial

/-- After an event. A host that connects ends advertising (`BT_LE_ADV_OPT_ONE_TIME`);
when one has disconnected, `advertising_start` may succeed or fail. -/
def next (a : Air) : Firmware.Event κ → Air
  | .connected conn err role _ =>
    if err = 0 ∧ role = .peripheral then ⟨false, conn :: a.hosts⟩ else a
  | .disconnected conn role advErr =>
    if role = .peripheral then
      ⟨if advErr = 0 then true else a.advertising, a.hosts.filter (· ≠ conn)⟩
    else a
  | _ => a

/-- There is at most one host, none while advertising is active, and the first entry is
occupied exactly if some entry is. -/
structure GateSound (a : Air) (modes : ConnModes) : Prop where
  atMostOne : a.hosts.length ≤ 1
  noneAdvertising : a.advertising = true → a.hosts = []
  firstEntry : (Firmware.firstHost modes).isSome = true ↔ Firmware.AnyHost modes

/-- The invariant: an occupied entry is the first, and its host is there. -/
structure Inv (a : Air) (modes : ConnModes) : Prop where
  atMostOne : a.hosts.length ≤ 1
  noneAdvertising : a.advertising = true → a.hosts = []
  entries : ∀ i (hi : i < hidsMaxClientCount), ∀ c, modes[i].conn = some c → i = 0 ∧ c ∈ a.hosts

variable {a : Air} {modes modes' : ConnModes}

theorem Inv.gateSound (h : a.Inv modes) : a.GateSound modes where
  atMostOne := h.atMostOne
  noneAdvertising := h.noneAdvertising
  firstEntry := by
    constructor
    · intro hfirst
      exact ⟨0, by decide, hfirst⟩
    · rintro ⟨i, hi, hsome⟩
      obtain ⟨c, hc⟩ := Option.isSome_iff_exists.mp hsome
      obtain ⟨rfl, -⟩ := h.entries i hi c hc
      exact hsome

/-- Only the connections of the entries count. -/
theorem Inv.congr (h : a.Inv modes)
    (hconns : ∀ i (hi : i < hidsMaxClientCount), modes'[i].conn = modes[i].conn) :
    a.Inv modes' :=
  { h with entries := fun i hi c hc => h.entries i hi c ((hconns i hi).symm.trans hc) }

/-- Without hosts the table is empty. -/
theorem Inv.conn_eq_none (h : a.Inv modes) (hnone : a.hosts = []) {i : Nat}
    (hi : i < hidsMaxClientCount) : modes[i].conn = none := by
  by_contra hsome
  obtain ⟨c, hc⟩ := Option.ne_none_iff_exists'.mp hsome
  have hmem := (h.entries i hi c hc).2
  rw [hnone] at hmem
  cases hmem

/-- A host that connects finds the table empty, and takes its first entry or none. -/
theorem Inv.connected (h : a.Inv modes) (hadv : a.advertising = true) (conn : Conn)
    (taken : Prop) [Decidable taken] :
    Inv ⟨false, conn :: a.hosts⟩ (if taken then Firmware.addConn conn modes else modes) where
  atMostOne := by
    rw [h.noneAdvertising hadv]
    exact Nat.le_refl 1
  noneAdvertising := nofun
  entries := by
    intro i hi c hc
    have hnone := h.noneAdvertising hadv
    have hfree : Firmware.firstHost modes = none := h.conn_eq_none hnone (by decide)
    split at hc
    · rw [Firmware.addConn_conn hfree conn hi, h.conn_eq_none hnone hi] at hc
      split at hc
      · next hzero =>
        obtain rfl := Option.some.inj hc
        exact ⟨hzero, List.mem_cons_self⟩
      · cases hc
    · rw [h.conn_eq_none hnone hi] at hc
      cases hc

/-- A host that disconnects is the only one, and its entry is freed. -/
theorem Inv.disconnected (h : a.Inv modes) {conn : Conn} (hconn : conn ∈ a.hosts)
    (advertising : Bool) :
    Inv ⟨advertising, a.hosts.filter (· ≠ conn)⟩ (Firmware.removeConn conn modes) := by
  have honly : a.hosts = [conn] := by
    obtain ⟨c, hc⟩ := List.length_eq_one_iff.mp
      (Nat.le_antisymm h.atMostOne (List.length_pos_of_mem hconn))
    rw [hc, List.mem_singleton] at hconn
    rw [hc, hconn]
  have hgone : a.hosts.filter (· ≠ conn) = [] := by
    rw [honly]
    simp
  refine ⟨?_, fun _ => hgone, ?_⟩
  · show (a.hosts.filter _).length ≤ 1
    rw [hgone]
    exact Nat.zero_le 1
  · intro i hi c hc
    rw [Firmware.removeConn_conn] at hc
    split at hc
    · cases hc
    · next hother =>
      have hmem := (h.entries i hi c hc).2
      rw [honly, List.mem_singleton] at hmem
      exact absurd (hmem ▸ hc) hother

/-- An event that the stack allows keeps the invariant. -/
theorem Inv.step {sendErr : Nat → Int} {fw fw' : Firmware κ} {e : Firmware.Event κ}
    (h : a.Inv fw.connMode) (hallow : a.Allows e) (hstep : Firmware.Stepped sendErr fw e fw') :
    (a.next e).Inv fw'.connMode := by
  refine Inv.congr ?_ hstep.conns
  cases e with
  | connected conn err role hidsErr =>
    by_cases hhost : err = 0 ∧ role = .peripheral
    · obtain ⟨rfl, rfl⟩ := hhost
      rw [next, if_pos ⟨rfl, rfl⟩, Firmware.nextConns]
      exact h.connected (hallow rfl rfl) conn _
    · rw [next, if_neg hhost, Firmware.nextConns, if_neg fun hnext => hhost ⟨hnext.1, hnext.2.1⟩]
      exact h
  | disconnected conn role advErr =>
    cases role with
    | central => exact h
    | peripheral => exact h.disconnected (hallow rfl) _
  | _ => exact h

end Air

/-! ## Runs -/

/-- An event of the firmware, or advertising ends by itself. -/
inductive AirEvent (κ : Type u) where
  | firmware (e : Firmware.Event κ)
  | advertisingEnds

/-- The firmware and the stack, from the initial `advertising_start` on, which has
succeeded or failed. -/
def onAir (κ : Type u) (sendErr : Nat → Int) (started : Bool) :
    Machine (Firmware κ × Air) (AirEvent κ) where
  init := ({ Firmware.init with isAdv := started }, ⟨started, []⟩)
  step s
    | .firmware e =>
      if s.2.Allows e then (s.1.step sendErr e).map fun fw => (fw, s.2.next e) else none
    | .advertisingEnds => some (s.1, { s.2 with advertising := false })

/-- **The slot-0 gate is sound**: on every run there is at most one host, none while
advertising is active, and the entry that the main loop tests is occupied exactly if any
entry is. -/
theorem gate_sound (sendErr : Nat → Int) (started : Bool) (es : List (AirEvent κ)) :
    (onAir κ sendErr started).Always (fun s => s.2.GateSound s.1.connMode) es := by
  refine Machine.AlwaysFrom.mono (P := fun s => s.2.Inv s.1.connMode) ?_ fun _ h => h.gateSound
  refine Machine.alwaysFrom_of_step es ?_ ?_
  · refine ⟨Nat.zero_le 1, fun _ => rfl, ?_⟩
    intro i hi c hc
    have hfree : (Vector.replicate hidsMaxClientCount (⟨none, false⟩ : ConnMode))[i].conn
        = some c := hc
    rw [Vector.getElem_replicate] at hfree
    cases hfree
  · rintro ⟨fw, a⟩ e ⟨fw', a'⟩ h hstep
    cases e with
    | firmware e =>
      have hstep : (if a.Allows e then (fw.step sendErr e).map fun fw => (fw, a.next e) else none)
          = some (fw', a') := hstep
      split at hstep
      · next hallow =>
        obtain ⟨next, hnext, heq⟩ := Option.map_eq_some_iff.mp hstep
        obtain ⟨rfl, rfl⟩ := Prod.mk.inj heq
        exact h.step hallow (Firmware.stepped hnext)
      · cases hstep
    | advertisingEnds =>
      obtain ⟨rfl, rfl⟩ := Prod.mk.inj (Option.some.inj hstep)
      exact ⟨h.atMostOne, nofun, h.entries⟩

/-- A host comes while the left half connects, is refused by HIDS, goes, and comes back. -/
example : ((onAir Nat (fun _ => 0) true).run
    [.firmware (.connected 1 0 .peripheral (-12)), .firmware (.connected 2 0 .central 0),
      .firmware (.disconnected 1 .peripheral 0), .firmware (.connected 1 0 .peripheral 0)]).map
    (fun s => (s.2.hosts, s.2.advertising, Firmware.firstHost s.1.connMode))
    = some ([1], false, some 1) := by decide +kernel

end BleKeyboard
