import BleKeyboard.Firmware.Step
import Mathlib.Data.Multiset.AddSub

/-!
# Looking for the left half

The scan, `default_conn` and the reference the application holds to it are moved by five
callbacks. `bt_scan` stops before it tries to connect, so from then on either a connection
comes out of it, whose end restarts the scan, or somebody has to restart it at once.
`connected` with an error does; `scan_connecting_error` and `scan_filter_no_match` do not.

`left_link_kept_iff`: the application scans or holds one reference to `default_conn`
exactly on the runs in which no attempt to connect fails while `default_conn` is `NULL`.
-/

namespace BleKeyboard

open Base

universe u

/-- The scan, and the references that the application holds to central connections. -/
structure Central where
  scanning : Bool
  defaultConn : Option Conn
  refs : Multiset Conn
  deriving DecidableEq

namespace Central

/-- `main` has started scanning. -/
def init : Central := ⟨true, none, 0⟩

/-! ## The callbacks -/

/-- `bt_conn_ref`. -/
def connRef (conn : Conn) (c : Central) : Central := { c with refs := conn ::ₘ c.refs }

/-- `bt_conn_unref`. -/
def connUnref (conn : Conn) (c : Central) : Central := { c with refs := c.refs.erase conn }

/-- `bt_scan_start`, which succeeds. -/
def scanStart (c : Central) : Central := { c with scanning := true }

/-- `bt_scan_stop`. -/
def scanStop (c : Central) : Central := { c with scanning := false }

/-- `scan_connecting_error` only prints. -/
def scanConnectingError (c : Central) : Central := c

/-- `scan_connecting`. -/
def scanConnecting (conn : Conn) (c : Central) : Central :=
  { c.connRef conn with defaultConn := some conn }

/-- `scan_filter_match` only prints; then `bt_scan` stops and tries to connect, because
of `connect_if_match`. -/
def scanFilterMatch (created : Option Conn) (c : Central) : Central :=
  match created with
  | none => c.scanStop.scanConnectingError
  | some conn => c.scanStop.scanConnecting conn

/-- `scan_filter_no_match`; `created` is what `bt_conn_le_create` yields. -/
def scanFilterNoMatch (directed : Bool) (created : Option Conn) (c : Central) : Central :=
  if directed then
    match created with
    | none => c.scanStop
    | some conn =>
      -- the reference that comes with `conn`, the one of `default_conn`, the first back
      let c := c.scanStop.connRef conn
      { c.connRef conn with defaultConn := some conn }.connUnref conn
  else c

/-- `connected`. -/
def connected (conn : Conn) (err : Byte) (c : Central) : Central :=
  if err ≠ 0 then
    if some conn = c.defaultConn then { c.connUnref conn with defaultConn := none }.scanStart else c
  else c

/-- `disconnected`. -/
def disconnected (conn : Conn) (c : Central) : Central :=
  if c.defaultConn ≠ some conn then c
  else { c.connUnref conn with defaultConn := none }.scanStart

/-- A callback for a central-role connection. -/
inductive Event where
  | scanFilterMatch (created : Option Conn)
  | scanFilterNoMatch (directed : Bool) (created : Option Conn)
  | connected (conn : Conn) (err : Byte)
  | disconnected (conn : Conn)

/-- One callback. -/
def react (c : Central) : Event → Central
  | .scanFilterMatch created => c.scanFilterMatch created
  | .scanFilterNoMatch directed created => c.scanFilterNoMatch directed created
  | .connected conn err => c.connected conn err
  | .disconnected conn => c.disconnected conn

/-- The outcome of an attempt to connect, if the callback makes one. -/
def Event.attempt : Event → Option (Option Conn)
  | .scanFilterMatch created => some created
  | .scanFilterNoMatch directed created => if directed then some created else none
  | .connected _ _ | .disconnected _ => none

/-- `bt_conn_le_create` fails while `default_conn` is set. -/
def Allows (c : Central) (e : Event) : Prop :=
  ∀ conn, e.attempt = some (some conn) → c.defaultConn = none

instance (c : Central) (e : Event) : Decidable (c.Allows e) :=
  match h : e.attempt with
  | some (some _) => decidable_of_iff (c.defaultConn = none) (by simp [Allows, h])
  | some none | none => .isTrue (by simp [Allows, h])

/-- Scanning without a connection and without a reference, or one reference, to
`default_conn`. -/
def Kept (c : Central) : Prop :=
  (c.scanning = true ∧ c.defaultConn = none ∧ c.refs = 0) ∨
    ∃ conn, c.defaultConn = some conn ∧ c.refs = {conn}

/-- An attempt to connect fails only while `default_conn` is set. -/
def Connects (c : Central) (e : Event) : Prop := e.attempt = some none → c.defaultConn ≠ none

/-! ## One callback -/

theorem kept_of_ref {c : Central} {conn : Conn} (hdef : c.defaultConn = some conn)
    (hrefs : c.refs = {conn}) : c.Kept := .inr ⟨conn, hdef, hrefs⟩

/-- The end of the connection gives its reference back and restarts the scan. -/
theorem kept_of_end {c : Central} {conn : Conn} (hk : c.Kept) (hdef : c.defaultConn = some conn) :
    ({ c.connUnref conn with defaultConn := none }.scanStart).Kept := by
  obtain ⟨-, hnone, -⟩ | ⟨conn', hdef', hrefs⟩ := hk
  · rw [hdef] at hnone
    cases hnone
  · obtain rfl := Option.some.inj (hdef.symm.trans hdef')
    refine .inl ⟨rfl, rfl, ?_⟩
    show c.refs.erase conn = 0
    rw [hrefs]
    exact Multiset.erase_cons_head conn 0

/-- An attempt to connect, from a state that is kept. -/
theorem kept_attempt_iff {c c' : Central} {created : Option Conn} (hk : c.Kept)
    (hallow : ∀ conn, created = some conn → c.defaultConn = none)
    (hnone : created = none → c' = c.scanStop)
    (hsome : ∀ conn, created = some conn →
      c'.defaultConn = some conn ∧ c'.refs = conn ::ₘ c.refs) :
    c'.Kept ↔ (created = none → c.defaultConn ≠ none) := by
  cases created with
  | none =>
    rw [hnone rfl, forall_prop_of_true rfl]
    obtain ⟨-, hdef, -⟩ | ⟨conn, hdef, hrefs⟩ := hk
    · -- the scan has stopped, and nothing came of it
      refine iff_of_false ?_ (not_not.mpr hdef)
      rintro (⟨hscan, -, -⟩ | ⟨conn, hdef', -⟩)
      · cases hscan
      · rw [show c.scanStop.defaultConn = c.defaultConn from rfl, hdef] at hdef'
        cases hdef'
    · exact iff_of_true (kept_of_ref (c := c.scanStop) hdef hrefs) (hdef ▸ Option.some_ne_none conn)
  | some conn =>
    refine iff_of_true ?_ nofun
    obtain ⟨hdef, hrefs⟩ := hsome conn rfl
    refine kept_of_ref hdef (hrefs.trans ?_)
    obtain ⟨-, -, hzero⟩ | ⟨conn', hdef', -⟩ := hk
    · rw [hzero]
      rfl
    · rw [hallow conn rfl] at hdef'
      cases hdef'

/-- **Exactness of one callback**. -/
theorem kept_react_iff {c : Central} {e : Event} (hk : c.Kept) (hallow : c.Allows e) :
    (c.react e).Kept ↔ c.Connects e := by
  cases e with
  | scanFilterMatch created =>
    refine (kept_attempt_iff hk (fun conn h => hallow conn (congrArg some h)) ?_ ?_).trans ?_
    · rintro rfl
      rfl
    · rintro conn rfl
      exact ⟨rfl, rfl⟩
    · exact imp_congr_left (Option.some.injEq _ _).symm.to_iff
  | scanFilterNoMatch directed created =>
    cases directed with
    | false => exact iff_of_true hk nofun
    | true =>
      refine (kept_attempt_iff hk (fun conn h => hallow conn (congrArg some h)) ?_ ?_).trans ?_
      · rintro rfl
        rfl
      · rintro conn rfl
        exact ⟨rfl, Multiset.erase_cons_head conn _⟩
      · exact imp_congr_left (Option.some.injEq _ _).symm.to_iff
  | connected conn err =>
    refine iff_of_true ?_ nofun
    show (c.connected conn err).Kept
    unfold connected
    split
    · split
      · next hdef => exact kept_of_end hk hdef.symm
      · exact hk
    · exact hk
  | disconnected conn =>
    refine iff_of_true ?_ nofun
    show (c.disconnected conn).Kept
    unfold disconnected
    split
    · exact hk
    · next hdef => exact kept_of_end hk (not_not.mp hdef)

end Central

/-! ## Runs -/

/-- The callbacks in any order that `bt_conn_le_create` allows. -/
def central : Machine Central Central.Event :=
  (Machine.mk Central.init fun c e => some (c.react e)).under Central.Allows

/-- **The left link is never abandoned**, exactly on the runs in which no attempt to
connect fails while `default_conn` is `NULL`. -/
theorem left_link_kept_iff (es : List Central.Event) :
    central.Always Central.Kept es ↔ central.Along (fun c e _ => c.Connects e) es := by
  refine Machine.always_iff (.inl ⟨rfl, rfl, rfl⟩) ?_
  intro c e c' hk hstep
  obtain ⟨hallow, hreact⟩ := Machine.under_step.mp hstep
  obtain rfl := Option.some.inj hreact
  exact Central.kept_react_iff hk hallow

/-- The left half is found, and connecting to it fails: nobody scans any more. -/
theorem scan_lost_on_connecting_error :
    let es : List Central.Event := [.scanFilterMatch none]
    ¬central.Always Central.Kept es ∧ central.run es = some ⟨false, none, 0⟩ := by
  refine ⟨?_, rfl⟩
  intro hall
  obtain ⟨hscan, -, -⟩ | ⟨conn, hdef, -⟩ := hall.last (t := ⟨false, none, 0⟩) rfl
  · cases hscan
  · cases hdef

/-! ## `default_conn` in the firmware -/

namespace Firmware

variable {κ : Type u} {sendErr : Nat → Int}

/-- The callbacks that an event of the firmware stands for. -/
def centralEvents : Event κ → List Central.Event
  | .scanConnecting conn => [.scanFilterMatch (some conn)]
  | .connected conn err _ _ => [.connected conn err]
  | .disconnected conn role _ => if role = .central then [.disconnected conn] else []
  | _ => []

theorem connected_defaultConn {c : Central} {fw : Firmware κ}
    (hc : c.defaultConn = fw.defaultConn) (conn : Conn) (err : Byte) (role : Role)
    (hidsErr : Int) : (c.connected conn err).defaultConn
      = (fw.connected conn err role hidsErr).defaultConn := by
  unfold Central.connected connected
  rw [hc]
  by_cases herr : err ≠ 0
  · rw [if_pos herr, if_pos herr]
    by_cases hdef : some conn = fw.defaultConn
    · rw [if_pos hdef, if_pos hdef]
      rfl
    · rw [if_neg hdef, if_neg hdef]
      exact hc
  · rw [if_neg herr, if_neg herr]
    cases role with
    | central => exact hc
    | peripheral =>
      dsimp only
      split <;> exact hc

theorem disconnected_defaultConn {c : Central} {fw : Firmware κ}
    (hc : c.defaultConn = fw.defaultConn) (conn : Conn) (advErr : Int) :
    (c.disconnected conn).defaultConn = (fw.disconnected conn .central advErr).defaultConn := by
  unfold Central.disconnected disconnected
  rw [hc]
  dsimp only
  split
  · exact hc
  · rfl

/-- The firmware moves `default_conn` as these callbacks do. -/
theorem step_defaultConn {fw fw' : Firmware κ} {e : Event κ} {c : Central}
    (hc : c.defaultConn = fw.defaultConn) (h : fw.step sendErr e = some fw') :
    ((centralEvents e).foldl Central.react c).defaultConn = fw'.defaultConn := by
  cases e with
  | scanConnecting conn =>
    obtain rfl := Option.some.inj h
    rfl
  | connected conn err role hidsErr =>
    obtain rfl : fw.connected conn err role hidsErr = fw' := Option.some.inj h
    exact connected_defaultConn hc conn err role hidsErr
  | disconnected conn role advErr =>
    obtain rfl : fw.disconnected conn role advErr = fw' := Option.some.inj h
    cases role with
    | peripheral => exact hc
    | central => exact disconnected_defaultConn hc conn advErr
  | securityChanged conn err =>
    obtain rfl : fw.securityChanged conn err = fw' := Option.some.inj h
    rw [securityChanged_eq]
    exact hc
  | pmEvt evt conn =>
    obtain ⟨connMode, heq, -⟩ := fw.hidsPmEvtHandler_frame evt conn
    obtain rfl : fw.hidsPmEvtHandler evt conn = fw' := Option.some.inj h
    rw [heq]
    exact hc
  | turn pins =>
    obtain ⟨pressed, heq⟩ := fw.mainLoop_frame sendErr pins
    obtain rfl : (fw.mainLoop sendErr pins).1 = fw' := Option.some.inj h
    rw [heq]
    exact hc
  | notified data =>
    obtain ⟨r, -, rfl⟩ := notified_of_step h
    exact hc
  | readWork =>
    obtain ⟨-, rfl⟩ := readWork_of_step h
    exact hc
  | pairingWork =>
    obtain ⟨-, rfl⟩ := pairingWork_of_step h
    exact hc
  | discoveryCompleted dm subscribeErr readErr | readResponse err data
  | periodicResponse err data | passkeyConfirm conn passkey | authCancel conn
  | pairingFailed conn =>
    obtain rfl := Option.some.inj h
    exact hc

end Firmware

end BleKeyboard
