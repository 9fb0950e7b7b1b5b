import BleKeyboard.Base.Interleavings
import BleKeyboard.Host.References

/-!
# What the order of callbacks matters to

Between two turns of the main loop the callbacks of three subsystems come in any order: those of
the left half and its client, those of the hosts, and those of pairing. Each keeps its variables
apart from those of the others, and only the main loop reads them all.

`order_between_turns`: runs that look the same to each subsystem, turns included, end in the same
state and have made the same stack calls for pairing.
-/

namespace BleKeyboard

open Base

universe u

variable {κ : Type u}

/-- Who a callback belongs to. -/
inductive Subsystem where
  | leftHalf
  | hosts
  | pairing
  deriving DecidableEq, Repr

namespace Firmware

/-- The subsystem of an event; none of them has the main loop to itself. A connection that comes up
counts for the hosts in either role, as that of the left half changes nothing here. -/
def Event.subsystem : Event κ → Option Subsystem
  | .scanConnecting _ | .discoveryCompleted _ _ _ | .notified _ | .readResponse _ _ | .readWork
  | .periodicResponse _ _ | .disconnected _ .central _ => some .leftHalf
  -- an attempt that failed counts for the left half in either role: only `default_conn` may change
  | .connected _ err _ _ => if err ≠ 0 then some .leftHalf else some .hosts
  | .disconnected _ .peripheral _ | .securityChanged _ _ | .pmEvt _ _ => some .hosts
  | .passkeyConfirm _ _ | .authCancel _ | .pairingFailed _ | .pairingWork => some .pairing
  | .turn _ => none

/-- Every subsystem sees its own events and the turns of the main loop. -/
def Event.seenBy (sub : Subsystem) (e : Event κ) : Bool :=
  e.subsystem.elim true fun own => own == sub

theorem Event.seenBy_iff {sub : Subsystem} {e : Event κ} :
    e.seenBy sub = true ↔ e.subsystem = none ∨ e.subsystem = some sub := by
  rw [seenBy]
  cases e.subsystem with
  | none => exact iff_of_true rfl (.inl rfl)
  | some own => simp

/-- The firmware, and the stack calls that its pairing handlers have made. -/
abbrev Called (κ : Type u) := Firmware κ × List (PairingCall κ)

/-- The variables of the left half. -/
def leftHalfPart : Part (Called κ) (KbdsClient × Option Conn × Poll) where
  get s := (s.1.kbds, s.1.defaultConn, s.1.poll)
  set v s := ({ s.1 with kbds := v.1, defaultConn := v.2.1, poll := v.2.2 }, s.2)

/-- The variables of the hosts. -/
def hostsPart : Part (Called κ) (ConnModes × Bool × Bool) where
  get s := (s.1.connMode, s.1.inPairingMode, s.1.isAdv)
  set v s := ({ s.1 with connMode := v.1, inPairingMode := v.2.1, isAdv := v.2.2 }, s.2)

/-- The variables of pairing, and the stack calls. -/
def pairingPart : Part (Called κ) (Pairing κ × List (PairingCall κ)) where
  get s := (s.1.pairing, s.2)
  set v s := ({ s.1 with pairing := v.1 }, v.2)

theorem leftHalfPart_hostsPart : (leftHalfPart (κ := κ)).Disjoint hostsPart :=
  ⟨fun _ _ => rfl, fun _ _ => rfl, fun _ _ _ => rfl⟩

theorem leftHalfPart_pairingPart : (leftHalfPart (κ := κ)).Disjoint pairingPart :=
  ⟨fun _ _ => rfl, fun _ _ => rfl, fun _ _ _ => rfl⟩

theorem hostsPart_pairingPart : (hostsPart (κ := κ)).Disjoint pairingPart :=
  ⟨fun _ _ => rfl, fun _ _ => rfl, fun _ _ _ => rfl⟩

/-! ## One event -/

section

variable {sendErr : Nat → Int} {e : Event κ}

theorem calling_step (s : Called κ) (e : Event κ) : (calling κ sendErr).step s e
    = (s.1.react sendErr e).map fun r => (r.1, s.2 ++ r.2) := by
  show ((s.1.react sendErr e).map Prod.fst).map (fun fw => (fw, s.2 ++ s.1.calls sendErr e)) = _
  rw [calls]
  cases s.1.react sendErr e <;> rfl

/-- A callback that makes no stack call and changes one part of the state. -/
theorem actsOn_of_react {α : Type*} {p : Part (Called κ) α} (f : α → Option α)
    (h : ∀ fw cs, ((fw.react sendErr e).map fun r => (r.1, cs ++ r.2))
      = (f (p.get (fw, cs))).map fun a => p.set a (fw, cs)) : (calling κ sendErr).ActsOn p e := by
  refine ⟨f, fun s => ?_⟩
  rw [calling_step]
  exact h s.1 s.2

/-- The callbacks of the left half keep to its variables. -/
theorem actsOn_leftHalf (h : e.subsystem = some .leftHalf) :
    (calling κ sendErr).ActsOn leftHalfPart e := by
  cases e with
  | scanConnecting conn =>
    refine actsOn_of_react (fun v => some (v.1, some conn, v.2.2)) fun fw cs => ?_
    simp only [react, Option.map_some, List.append_nil]
    rfl
  | connected conn err role hidsErr =>
    have herr : err ≠ 0 := by
      intro herr
      rw [Event.subsystem, if_neg (not_not.mpr herr)] at h
      cases h
    refine actsOn_of_react
      (fun v => some (v.1, if some conn = v.2.1 then none else v.2.1, v.2.2)) fun fw cs => ?_
    simp only [react, connected, if_pos herr, Option.map_some, List.append_nil]
    by_cases hdef : some conn = fw.defaultConn <;> simp [leftHalfPart, hdef]
  | disconnected conn role advErr =>
    cases role with
    | peripheral => cases h
    | central =>
      refine actsOn_of_react (fun v => some (if v.2.1 ≠ some conn then v else
        ({ v.1 with keystates := 0x00 }, none, v.2.2))) fun fw cs => ?_
      simp only [react, disconnected, Option.map_some, List.append_nil]
      by_cases hdef : fw.defaultConn = some conn <;> simp [leftHalfPart, hdef]
  | discoveryCompleted dm subscribeErr readErr =>
    refine actsOn_of_react (fun v =>
      some ((discoveryCompletedCb dm subscribeErr readErr v.1).1, v.2)) fun fw cs => ?_
    simp only [react, Option.map_some, List.append_nil]
    rfl
  | notified data =>
    refine actsOn_of_react (fun v => (v.1.notifyProcess data).map fun r => (r.1, v.2))
      fun fw cs => ?_
    show _ = ((fw.kbds.notifyProcess data).map _).map _
    simp only [react]
    cases fw.kbds.notifyProcess data with
    | none => rfl
    | some r =>
      simp only [Option.map_some, List.append_nil]
      rfl
  | readResponse err data =>
    refine actsOn_of_react (fun v => some ((v.1.readProcess err data).1, v.2.1,
      invoke (v.1.readProcess err data).2 v.2.2)) fun fw cs => ?_
    simp only [react, Option.map_some, List.append_nil]
    rfl
  | readWork =>
    refine actsOn_of_react (fun v => if v.1.periodicRead.readWorkPending then
      some (v.1.kbdsReadValueHandler.1, v.2) else none) fun fw cs => ?_
    by_cases hpending : fw.kbds.periodicRead.readWorkPending = true <;>
      simp [react, leftHalfPart, hpending]
  | periodicResponse err data =>
    refine actsOn_of_react (fun v => some ((v.1.periodicReadProcess err data).1, v.2))
      fun fw cs => ?_
    simp only [react, Option.map_some, List.append_nil]
    rfl
  | _ => cases h

/-- The callbacks of the hosts keep to their variables. -/
theorem actsOn_hosts (h : e.subsystem = some .hosts) :
    (calling κ sendErr).ActsOn hostsPart e := by
  cases e with
  | connected conn err role hidsErr =>
    have herr : ¬err ≠ 0 := by
      intro herr
      rw [Event.subsystem, if_pos herr] at h
      cases h
    refine actsOn_of_react (fun v => some (if role = .peripheral ∧ hidsErr = 0 then
      (addConn conn v.1, v.2.1, false) else v)) fun fw cs => ?_
    simp only [react, connected, if_neg herr, Option.map_some, List.append_nil]
    cases role with
    | central => rfl
    | peripheral => by_cases hhids : hidsErr = 0 <;> simp [hostsPart, hhids]
  | disconnected conn role advErr =>
    cases role with
    | central => cases h
    | peripheral =>
      refine actsOn_of_react (fun v => some (removeConn conn v.1,
        if !isAnyDevConnected conn v.1 then true else v.2.1,
        if advErr = 0 then true else v.2.2)) fun fw cs => ?_
      simp only [react, disconnected, Option.map_some, List.append_nil]
      rfl
  | securityChanged conn err =>
    refine actsOn_of_react (fun v => some (v.1, if err = 0 then false else v.2.1, v.2.2))
      fun fw cs => ?_
    simp only [react, securityChanged_eq, Option.map_some, List.append_nil]
    rfl
  | pmEvt evt conn =>
    refine actsOn_of_react (fun v => some (({ (init : Firmware κ) with
      connMode := v.1 }.hidsPmEvtHandler evt conn).connMode, v.2)) fun fw cs => ?_
    simp only [react, hostsPart, Option.map_some, List.append_nil]
    unfold hidsPmEvtHandler
    cases (List.finRange hidsMaxClientCount).find? fun i =>
      (fw.connMode.get i).conn = some conn <;> rfl
  | _ => cases h

/-- The callbacks of pairing keep to its variables and to the stack calls. -/
theorem actsOn_pairing (h : e.subsystem = some .pairing) :
    (calling κ sendErr).ActsOn pairingPart e := by
  cases e with
  | passkeyConfirm conn passkey =>
    exact actsOn_of_react (fun v => some ((v.1.authPasskeyConfirm conn passkey).1,
      v.2 ++ (v.1.authPasskeyConfirm conn passkey).2)) fun _ _ => rfl
  | authCancel conn =>
    exact actsOn_of_react (fun v => some (v.1.authCancel conn, v.2 ++ [])) fun _ _ => rfl
  | pairingFailed conn =>
    exact actsOn_of_react (fun v => some ((v.1.pairingFailed conn).1,
      v.2 ++ (v.1.pairingFailed conn).2)) fun _ _ => rfl
  | pairingWork =>
    refine actsOn_of_react (fun v => if v.1.workPending then
      some (v.1.pairingProcess.1, v.2 ++ v.1.pairingProcess.2) else none) fun fw cs => ?_
    by_cases hpending : fw.pairing.workPending = true <;> simp [react, pairingPart, hpending]
  | connected conn err role hidsErr =>
    rw [Event.subsystem] at h
    split at h <;> cases h
  | disconnected conn role advErr => cases role <;> cases h
  | _ => cases h

end

/-- Callbacks of different subsystems commute. -/
theorem commutes_of_subsystem {sendErr : Nat → Int} {d e : Event κ} {sub sub' : Subsystem}
    (hd : d.subsystem = some sub) (he : e.subsystem = some sub') (hne : sub ≠ sub') :
    (calling κ sendErr).Commutes d e := by
  cases sub <;> cases sub'
  case leftHalf.hosts => exact (actsOn_leftHalf hd).commutes (actsOn_hosts he) leftHalfPart_hostsPart
  case leftHalf.pairing =>
    exact (actsOn_leftHalf hd).commutes (actsOn_pairing he) leftHalfPart_pairingPart
  case hosts.pairing => exact (actsOn_hosts hd).commutes (actsOn_pairing he) hostsPart_pairingPart
  case hosts.leftHalf =>
    exact ((actsOn_leftHalf he).commutes (actsOn_hosts hd) leftHalfPart_hostsPart).symm
  case pairing.leftHalf =>
    exact ((actsOn_leftHalf he).commutes (actsOn_pairing hd) leftHalfPart_pairingPart).symm
  case pairing.hosts =>
    exact ((actsOn_hosts he).commutes (actsOn_pairing hd) hostsPart_pairingPart).symm
  all_goals exact absurd rfl hne

end Firmware

/-! ## Runs -/

/-- **The order that matters**: runs of the firmware that look the same to the left half, to the
hosts and to pairing, turns of the main loop included, end in the same state, with the same reports
sent and the same stack calls made by the pairing handlers; in between two turns it does not matter
which subsystem's callbacks come first. -/
theorem order_between_turns (sendErr : Nat → Int) {es es' : List (Firmware.Event κ)}
    (hviews : ∀ sub, es.filter (Firmware.Event.seenBy sub)
      = es'.filter (Firmware.Event.seenBy sub)) :
    (Firmware.calling κ sendErr).run es = (Firmware.calling κ sendErr).run es' := by
  refine Machine.runFrom_eq_of_views ?_ ?_ hviews _
  · intro e
    cases hsub : e.subsystem with
    | none => exact ⟨.hosts, Firmware.Event.seenBy_iff.mpr (.inl hsub)⟩
    | some sub => exact ⟨sub, Firmware.Event.seenBy_iff.mpr (.inr hsub)⟩
  · intro d e hunseen
    have hnot : ∀ sub, e.subsystem = none ∨ e.subsystem = some sub →
        ¬(d.subsystem = none ∨ d.subsystem = some sub) := by
      intro sub he hd
      have hsees := hunseen sub (Firmware.Event.seenBy_iff.mpr he)
      rw [Firmware.Event.seenBy_iff.mpr hd] at hsees
      cases hsees
    cases hd : d.subsystem with
    | none =>
      -- everyone sees a turn
      cases he : e.subsystem with
      | none => exact absurd (.inl hd) (hnot .hosts (.inl he))
      | some sub => exact absurd (.inl hd) (hnot sub (.inr he))
    | some sub =>
      cases he : e.subsystem with
      | none => exact absurd (.inr hd) (hnot sub (.inl he))
      | some sub' =>
        refine Firmware.commutes_of_subsystem hd he ?_
        rintro rfl
        exact hnot sub (.inr he) (.inr hd)

/-- A notification, a host and a passkey request, in two orders. -/
theorem order_between_turns_mixed :
    let es : List (Firmware.Event Nat) := [.connected 1 0 .peripheral 0,
      .passkeyConfirm 1 123456, .notified (some [1, 0, 0, 0]), .pairingWork, .turn (pinsOf 0x08)]
    let es' : List (Firmware.Event Nat) := [.notified (some [1, 0, 0, 0]),
      .passkeyConfirm 1 123456, .pairingWork, .connected 1 0 .peripheral 0, .turn (pinsOf 0x08)]
    ((Firmware.calling Nat fun _ => 0).run es).isSome = true ∧
      (Firmware.calling Nat fun _ => 0).run es = (Firmware.calling Nat fun _ => 0).run es' :=
  ⟨by decide +kernel, order_between_turns _ (by intro sub; cases sub <;> rfl)⟩

end BleKeyboard
