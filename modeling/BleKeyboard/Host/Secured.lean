import BleKeyboard.Firmware.Step

/-!
# Keystrokes and secured hosts

`in_pairing_mode` is one flag for all links. Every successful `security_changed` clears
it, that of the link to the left half included, and so does the accept key, before
pairing has finished; it is set only when the last host has gone.

`keystrokes_secured_iff`: outside pairing mode some host is secured, and the host whose
entry the main loop tests is, exactly on the runs whose events all meet `KeepsSecured`.
-/

namespace BleKeyboard

open Base

universe u

/-! ## The entries of `conn_mode` -/

namespace Firmware

theorem addConn_first (conn : Conn) (modes : ConnModes) :
    firstHost (addConn conn modes)
      = if firstHost modes = none then some conn else firstHost modes := by
  obtain ⟨⟨ms⟩, hms⟩ := modes
  match ms, hms with
  | m :: ms, _ =>
    have hlt : 0 < (insertConn conn (m :: ms)).length := by
      rw [length_insertConn]
      exact Nat.zero_lt_succ _
    show ((insertConn conn (m :: ms)).get ⟨0, hlt⟩).conn
      = if m.conn = none then some conn else m.conn
    cases hm : m.conn with
    | none => simp [insertConn, hm]
    | some c => simp [insertConn, hm]

theorem removeConn_conn (conn : Conn) (modes : ConnModes) {i : Nat}
    (hi : i < hidsMaxClientCount) :
    (removeConn conn modes)[i].conn
      = if modes[i].conn = some conn then none else modes[i].conn := by
  show ((removeConn conn modes).get ⟨i, hi⟩).conn
    = if (modes.get ⟨i, hi⟩).conn = some conn then none else (modes.get ⟨i, hi⟩).conn
  rw [removeConn_get]
  split <;> rfl

theorem removeConn_first (conn : Conn) (modes : ConnModes) :
    firstHost (removeConn conn modes)
      = if firstHost modes = some conn then none else firstHost modes :=
  removeConn_conn conn modes (Nat.zero_lt_succ _)

end Firmware

/-! ## Links and their security -/

/-- The hosts that are connected, and the links that have had a `security_changed`
without error since they were connected. -/
structure Links where
  hosts : List Conn
  secured : List Conn

namespace Links

/-- No links. -/
def empty : Links := ⟨[], []⟩

/-- The links after an event. -/
def next {κ : Type u} (l : Links) (_ : Firmware κ) : Firmware.Event κ → Links
  | .connected conn err role _ =>
    if err = 0 then
      ⟨if role = .peripheral then conn :: l.hosts else l.hosts, l.secured.filter (· ≠ conn)⟩
    else l
  | .disconnected conn role _ =>
    if role = .peripheral then { l with hosts := l.hosts.filter (· ≠ conn) } else l
  | .securityChanged conn err => if err = 0 then { l with secured := conn :: l.secured } else l
  | _ => l

/-- A connected host is secured. -/
def SomeHost (l : Links) : Prop := ∃ c ∈ l.hosts, c ∈ l.secured

/-- The host in the first entry of `conn_mode`, if there is one, is secured. -/
def FirstEntry (l : Links) (modes : ConnModes) : Prop :=
  ∀ c ∈ Firmware.firstHost modes, c ∈ l.secured

instance (l : Links) : Decidable l.SomeHost := inferInstanceAs (Decidable (∃ c ∈ l.hosts, _))

instance (l : Links) (modes : ConnModes) : Decidable (l.FirstEntry modes) :=
  inferInstanceAs (Decidable (∀ c ∈ Firmware.firstHost modes, _))

/-- Outside pairing mode a connected host is secured, and so is the host in the first
entry, which is the one the main loop looks for before it calls `call_key_report`. -/
def SecuredOnly {κ : Type u} (l : Links) (fw : Firmware κ) : Prop :=
  fw.inPairingMode = false → l.SomeHost ∧ l.FirstEntry fw.connMode

instance {κ : Type u} (l : Links) (fw : Firmware κ) : Decidable (l.SecuredOnly fw) :=
  inferInstanceAs (Decidable (_ → _))

/-- The condition on an event.

- Outside pairing mode, a new link neither takes nor holds the first entry, and another
  host is secured.
- Outside pairing mode, a host that goes and leaves another entry of `conn_mode` behind
  leaves a secured host.
- A successful security change finds the first entry free, secured, or of its own link;
  and its link is a host's, or another host is secured.
- The accept key is pressed only when a host and the first entry are secured. -/
def KeepsSecured {κ : Type u} (l : Links) (fw : Firmware κ) : Firmware.Event κ → Prop
  | .connected conn err role hidsErr => err = 0 → fw.inPairingMode = false →
      (∃ c ∈ l.hosts, c ≠ conn ∧ c ∈ l.secured) ∧ Firmware.firstHost fw.connMode ≠ some conn ∧
        (role = .peripheral → hidsErr = 0 → Firmware.firstHost fw.connMode ≠ none)
  | .disconnected conn role _ => role = .peripheral → fw.inPairingMode = false →
      Firmware.isAnyDevConnected conn fw.connMode = true →
        ∃ c ∈ l.hosts, c ≠ conn ∧ c ∈ l.secured
  | .securityChanged conn err => err = 0 →
      (∃ c ∈ l.hosts, c = conn ∨ c ∈ l.secured) ∧
        ∀ c ∈ Firmware.firstHost fw.connMode, c = conn ∨ c ∈ l.secured
  | .turn pins => fw.answer pins = some true → l.SomeHost ∧ l.FirstEntry fw.connMode
  | _ => True

section

variable {κ : Type u} {sendErr : Nat → Int} {l : Links} {fw fw' : Firmware κ}
  {e : Firmware.Event κ}

/-- After an event, in terms of the state before. -/
theorem securedOnly_iff (hstep : Firmware.Stepped sendErr fw e fw') (l' : Links) :
    l'.SecuredOnly fw' ↔ (fw.nextInPairingMode e = false →
      l'.SomeHost ∧ l'.FirstEntry (fw.nextConns e)) := by
  have hfirst : Firmware.firstHost fw'.connMode = Firmware.firstHost (fw.nextConns e) :=
    hstep.conns 0 (by decide)
  rw [SecuredOnly, FirstEntry, FirstEntry, hstep.inPairingMode, hfirst]

/-- A new link outside pairing mode. -/
theorem connected_iff (hfirst : l.FirstEntry fw.connMode) (conn : Conn) (role : Role)
    (hidsErr : Int) :
    ((l.next fw (.connected conn 0 role hidsErr)).SomeHost ∧
      (l.next fw (.connected conn 0 role hidsErr)).FirstEntry
        (fw.nextConns (.connected conn 0 role hidsErr))) ↔
    (∃ c ∈ l.hosts, c ≠ conn ∧ c ∈ l.secured) ∧ Firmware.firstHost fw.connMode ≠ some conn ∧
      (role = .peripheral → hidsErr = 0 → Firmware.firstHost fw.connMode ≠ none) := by
  have hmem : ∀ c, c ∈ l.secured.filter (· ≠ conn) ↔ c ≠ conn ∧ c ∈ l.secured := by
    intro c
    rw [List.mem_filter, decide_eq_true_eq, and_comm]
  refine and_congr ?_ ?_
  · -- the new link is not secured, whether it is a host's or not
    have hhost : (l.next fw (.connected conn 0 role hidsErr)).SomeHost ↔
        ∃ c ∈ (if role = .peripheral then conn :: l.hosts else l.hosts),
          c ∈ l.secured.filter (· ≠ conn) := by rfl
    rw [hhost]
    simp only [hmem]
    split <;> simp
  · have hentry : (l.next fw (.connected conn 0 role hidsErr)).FirstEntry
        (fw.nextConns (.connected conn 0 role hidsErr)) ↔
        ∀ c ∈ Firmware.firstHost (fw.nextConns (.connected conn 0 role hidsErr)),
          c ∈ l.secured.filter (· ≠ conn) := by rfl
    rw [hentry]
    simp only [hmem]
    rw [FirstEntry] at hfirst
    by_cases htaken : role = .peripheral ∧ hidsErr = 0
    · have hconns : Firmware.firstHost (fw.nextConns (.connected conn 0 role hidsErr))
          = if Firmware.firstHost fw.connMode = none then some conn
            else Firmware.firstHost fw.connMode := by
        rw [Firmware.nextConns, if_pos ⟨rfl, htaken⟩, Firmware.addConn_first]
      rw [hconns]
      cases hslot : Firmware.firstHost fw.connMode with
      | none => simp [htaken]
      | some c =>
        have hc : c ∈ l.secured := hfirst c hslot
        simp [hc]
    · have hconns : Firmware.firstHost (fw.nextConns (.connected conn 0 role hidsErr))
          = Firmware.firstHost fw.connMode := by
        rw [Firmware.nextConns, if_neg fun h => htaken h.2]
      rw [hconns]
      cases hslot : Firmware.firstHost fw.connMode with
      | none => simpa using not_and.mp htaken
      | some c =>
        have hc : c ∈ l.secured := hfirst c hslot
        simp [hc]

/-- A host that goes outside pairing mode, and leaves another entry behind. -/
theorem disconnected_iff (hfirst : l.FirstEntry fw.connMode) (conn : Conn) (advErr : Int) :
    ((l.next fw (.disconnected conn .peripheral advErr)).SomeHost ∧
      (l.next fw (.disconnected conn .peripheral advErr)).FirstEntry
        (fw.nextConns (.disconnected conn .peripheral advErr))) ↔
    ∃ c ∈ l.hosts, c ≠ conn ∧ c ∈ l.secured := by
  have hentry : (l.next fw (.disconnected conn .peripheral advErr)).FirstEntry
      (fw.nextConns (.disconnected conn .peripheral advErr)) := by
    intro c hc
    have hc : Firmware.firstHost (Firmware.removeConn conn fw.connMode) = some c := hc
    rw [Firmware.removeConn_first] at hc
    split at hc
    · cases hc
    · exact hfirst c hc
  have hhost : (l.next fw (.disconnected conn .peripheral advErr)).SomeHost ↔
      ∃ c ∈ l.hosts.filter (· ≠ conn), c ∈ l.secured := by rfl
  rw [and_iff_left hentry, hhost]
  simp only [List.mem_filter, decide_eq_true_eq, and_assoc]

/-- **Exactness of one event**. -/
theorem securedOnly_next_iff (hs : l.SecuredOnly fw) (hstep : Firmware.Stepped sendErr fw e fw') :
    (l.next fw e).SecuredOnly fw' ↔ l.KeepsSecured fw e := by
  rw [securedOnly_iff hstep]
  cases e with
  | connected conn err role hidsErr =>
    by_cases herr : err = 0
    · subst herr
      rw [KeepsSecured, forall_prop_of_true rfl]
      exact imp_congr_right fun hmode => connected_iff (hs hmode).2 conn role hidsErr
    · -- a connection that failed
      have hnext : l.next fw (.connected conn err role hidsErr) = l := if_neg herr
      have hconns : fw.nextConns (.connected conn err role hidsErr) = fw.connMode :=
        if_neg fun h => herr h.1
      rw [hnext, hconns]
      exact iff_of_true hs fun h => absurd h herr
  | disconnected conn role advErr =>
    cases role with
    | central => exact iff_of_true hs fun h => by cases h
    | peripheral =>
      have hmode : fw.nextInPairingMode (.disconnected conn .peripheral advErr) = false ↔
          fw.inPairingMode = false ∧ Firmware.isAnyDevConnected conn fw.connMode = true := by
        rw [Firmware.nextInPairingMode]
        cases fw.inPairingMode <;> cases Firmware.isAnyDevConnected conn fw.connMode <;> simp
      rw [hmode, KeepsSecured, forall_prop_of_true rfl, and_imp]
      exact imp_congr_right fun hpair => imp_congr_right fun _ =>
        disconnected_iff (hs hpair).2 conn advErr
  | securityChanged conn err =>
    by_cases herr : err = 0
    · have hmode : fw.nextInPairingMode (.securityChanged conn err) = false := if_pos herr
      have hnext : l.next fw (.securityChanged conn err)
          = { l with secured := conn :: l.secured } := if_pos herr
      rw [hmode, hnext, KeepsSecured, forall_prop_of_true rfl, forall_prop_of_true herr, SomeHost,
        FirstEntry]
      simp only [List.mem_cons]
      exact Iff.rfl
    · -- a security change with an error
      have hmode : fw.nextInPairingMode (.securityChanged conn err) = fw.inPairingMode :=
        if_neg herr
      have hnext : l.next fw (.securityChanged conn err) = l := if_neg herr
      rw [hmode, hnext]
      exact iff_of_true hs fun h => absurd h herr
  | turn pins =>
    by_cases hacc : fw.answer pins = some true
    · have hmode : fw.nextInPairingMode (.turn pins) = false := if_pos hacc
      rw [hmode, KeepsSecured, forall_prop_of_true rfl, forall_prop_of_true hacc]
      exact Iff.rfl
    · have hmode : fw.nextInPairingMode (.turn pins) = fw.inPairingMode := if_neg hacc
      rw [hmode]
      exact iff_of_true hs fun h => absurd h hacc
  | _ => exact iff_of_true hs trivial

end

end Links

/-- The firmware, with its links on the side. -/
def linking (κ : Type u) (sendErr : Nat → Int) :
    Machine (Firmware κ × Links) (Firmware.Event κ) :=
  (firmware κ sendErr).recording .empty Links.next

/-- **Keystrokes only to secured hosts**: outside pairing mode some host is secured, and
the host that the main loop reports for is, exactly on the runs whose events all meet
`KeepsSecured`. -/
theorem keystrokes_secured_iff {κ : Type u} (sendErr : Nat → Int)
    (es : List (Firmware.Event κ)) :
    (linking κ sendErr).Always (fun s => s.2.SecuredOnly s.1) es ↔
      (linking κ sendErr).Along (fun s e _ => s.2.KeepsSecured s.1 e) es := by
  refine Machine.recording_always_iff ?_ ?_
  · -- the keyboard starts in pairing mode
    intro h
    cases h
  · intro s e fw' hs hstep
    exact Links.securedOnly_next_iff hs (Firmware.stepped hstep)

/-- The link to the left half gets its security while a host is connected and not yet
secured: the main loop goes over to reporting keys. -/
theorem left_link_ends_pairing_mode :
    let es : List (Firmware.Event Nat) :=
      [.connected 1 0 .peripheral 0, .scanConnecting 2, .connected 2 0 .central 0,
        .securityChanged 2 0]
    ¬(linking Nat fun _ => 0).Always (fun s => s.2.SecuredOnly s.1) es ∧
    ∃ s, (linking Nat fun _ => 0).run es = some s ∧ s.1.reporting = true ∧
      Firmware.firstHost s.1.connMode = some 1 ∧ 1 ∉ s.2.secured := by
  refine ⟨by decide +kernel, _, rfl, ?_⟩
  decide +kernel

end BleKeyboard
