import BleKeyboard.Firmware.ClientCalls

/-!
# A client without a connection

`bt_kbds_handles_assign` saves the connection last. If the characteristic or its value is
missing, it returns `-EINVAL` before that, and `discovery_completed_cb` goes on all the same:
it starts to read periodically, and reads once. The delayed work, the interval and the reads
in flight may still be those of the link before.

`failed_assignment_disables`: nothing of that reads or subscribes, since every function that
does asks for the connection first, until `bt_kbds_handles_assign` returns 0.
-/

namespace BleKeyboard

open Base KbdsClient

universe u

/-- A request of `bt_gatt_unsubscribe`. -/
def GattRequest.isUnsubscribe : GattRequest → Bool
  | .unsubscribe _ _ => true
  | .read _ _ | .periodicRead _ _ | .subscribe _ _ => false

namespace KbdsClient

/-- The call is a `bt_kbds_handles_assign` that returns 0. -/
def Assigns (kbds : KbdsClient) : Op → Prop
  | .handlesAssign dm => (kbds.handlesAssign dm).1 = 0
  | _ => False

/-- The call makes no `bt_gatt_subscribe` and no `bt_gatt_read`. -/
def Silent (kbds : KbdsClient) (op : Op) : Prop :=
  ∀ req ∈ kbds.requests op, req.isUnsubscribe = true

variable {kbds t : KbdsClient}

/-- Without a connection, no call gets as far as a read or a subscription. -/
theorem silent_of_conn_eq_none (h : kbds.conn = none) (op : Op) : kbds.Silent op := by
  intro req hreq
  have hmade := kbds.requested hreq
  cases op with
  | subscribeKeystates func gattErr => exact absurd h hmade.1.1
  | unsubscribeKeystates gattErr =>
    obtain rfl : req = _ := hmade
    rfl
  | readKeystates func gattErr => exact absurd h hmade.1.1
  | kbdsReadValueHandler gattErr => exact absurd h hmade.2.1
  | _ => cases hmade

/-- Only an assignment that succeeds sets the connection. -/
theorem conn_eq_none_of_call {op : Op} (h : kbds.conn = none) (hop : ¬kbds.Assigns op)
    (hcall : kbds.call op = some t) : t.conn = none := by
  rw [(called hcall).conn]
  cases op with
  | handlesAssign dm =>
    have hincomplete : ¬dm.complete = true := mt (handlesAssign_ret kbds dm).mpr hop
    rw [nextConn, if_neg hincomplete]
    split
    · rfl
    · exact h
  | _ => exact h

/-- Every run from a client without a connection is silent until the next assignment. -/
theorem silent_until_assigned (h : kbds.conn = none) (ops : List Op) :
    client.UntilFrom Assigns (fun s op _ => s.Silent op) kbds ops := by
  refine Machine.untilFrom_of_inv (I := fun s => s.conn = none) ops h ?_
  intro s op t hs hop hcall
  exact ⟨conn_eq_none_of_call hs hop hcall, silent_of_conn_eq_none hs op⟩

/-- An assignment that returns `-EINVAL` leaves no connection. -/
theorem conn_of_handlesAssign_eq_einval {dm : Discovery}
    (hfailed : (kbds.handlesAssign dm).1 = -einval) : (kbds.handlesAssign dm).2.conn = none := by
  have hkbds : dm.isKbds = true := by
    by_contra hother
    have hret : (kbds.handlesAssign dm).1 = -enotsup :=
      congrArg Prod.fst (if_pos (by simpa using hother))
    exact absurd (hret.symm.trans hfailed) (by decide)
  have hincomplete : ¬dm.complete = true := by
    intro hcomplete
    rw [(handlesAssign_ret kbds dm).mpr hcomplete] at hfailed
    exact absurd hfailed (by decide)
  rw [(called_handlesAssign dm).conn, nextConn, if_neg hincomplete, if_pos hkbds]

/-- The rest of `discovery_completed_cb` goes on without a connection: it requests nothing. -/
theorem discoveryCompletedCb_of_conn_eq_none {dm : Discovery}
    (h : (kbds.handlesAssign dm).2.conn = none) (subscribeErr readErr : Int) :
    (discoveryCompletedCb dm subscribeErr readErr kbds).1.conn = none ∧
      (discoveryCompletedCb dm subscribeErr readErr kbds).2 = [] := by
  -- the single read at the end is refused
  have hread : ∀ s : KbdsClient, s.conn = none →
      s.readKeystates .readKeystatesCb readErr = (-einval, s, []) := fun s hs => if_pos hs
  rw [discoveryCompletedCb]
  dsimp only
  split
  · rw [subscribeKeystates, if_pos h, hread _ h]
    exact ⟨h, rfl⟩
  · have hstart : (kbds.handlesAssign dm).2.call
        (.startPerReadKeystates kbdsReadValueInterval .notifyKeystatesCb) = some _ := rfl
    have hstarted : ((kbds.handlesAssign dm).2.startPerReadKeystates kbdsReadValueInterval
        .notifyKeystatesCb).2.conn = none := (called hstart).conn.trans h
    rw [hread _ hstarted]
    exact ⟨hstarted, rfl⟩

end KbdsClient

/-- **A failed assignment disables the client**: the rest of `discovery_completed_cb` requests
nothing, and after that no call reads or subscribes until an assignment succeeds. -/
theorem failed_assignment_disables {kbds : KbdsClient} {dm : Discovery}
    (hfailed : (kbds.handlesAssign dm).1 = -einval) (subscribeErr readErr : Int) (ops : List Op) :
    (discoveryCompletedCb dm subscribeErr readErr kbds).2 = [] ∧
    client.UntilFrom Assigns (fun s op _ => s.Silent op)
      (discoveryCompletedCb dm subscribeErr readErr kbds).1 ops := by
  have hconn := conn_of_handlesAssign_eq_einval hfailed
  obtain ⟨hnone, hrequests⟩ := discoveryCompletedCb_of_conn_eq_none hconn subscribeErr readErr
  exact ⟨hrequests, silent_until_assigned hnone ops⟩

/-- A link that is read periodically, with reads of both kinds in flight and the work pending,
is assigned anew without the characteristic. -/
theorem failed_assignment_disables_reading :
    let kbds : KbdsClient := { KbdsClient.clientInit with
      conn := some 1, valHandle := 3, periodicRead := ⟨true, 3, kbdsReadValueInterval⟩
      notifyCb := some .notifyKeystatesCb, readCb := some .readKeystatesCb }
    let dm : Discovery := ⟨1, true, none, none, none⟩
    (discoveryCompletedCb dm 0 0 kbds).2 = [] ∧
    client.UntilFrom Assigns (fun s op _ => s.Silent op) (discoveryCompletedCb dm 0 0 kbds).1
      [.kbdsReadValueHandler 0, .periodicReadProcess 0 (some [5]), .kbdsReadValueHandler 0,
        .readProcess 0 (some [5]), .readKeystates .readKeystatesCb 0,
        .subscribeKeystates .notifyKeystatesCb 0] := failed_assignment_disables rfl 0 0 _

/-! ## Runs of the firmware -/

/-- After a discovery that fails in this way, the events of the firmware make no call that reads
or subscribes until an assignment succeeds. -/
theorem Firmware.failed_discovery_silent {κ : Type u} {sendErr : Nat → Int} {fw fw' : Firmware κ}
    {dm : Discovery} {subscribeErr readErr : Int}
    (hfailed : (fw.kbds.handlesAssign dm).1 = -einval)
    (hstep : fw.step sendErr (.discoveryCompleted dm subscribeErr readErr) = some fw')
    (es : List (Event κ)) :
    client.UntilFrom Assigns (fun s op _ => s.Silent op) fw'.kbds
      ((firmware κ sendErr).emitted clientOps fw' es) := by
  refine silent_until_assigned ?_ _
  rw [(stepped hstep).kbds]
  exact (discoveryCompletedCb_of_conn_eq_none (conn_of_handlesAssign_eq_einval hfailed) _ _).1

end BleKeyboard
