import BleKeyboard.Firmware.ClientCalls

/-!
# Notification or periodic reading

A client whose peer has a CCC descriptor subscribes, one whose peer has none reads
periodically. The second mode is in three places: the interval, the delayed work, and a read
in flight. `bt_kbds_stop_per_read_keystates` clears the interval, so that the read in flight
does not start the next one; `bt_kbds_handles_assign` cancels the work only.

`modes_exclusive`: once subscribed, the client does not read periodically, if each such
switch finds no periodic read in flight and no work that starts one; and from a switch that
does, one more call breaks the rule.
-/

namespace BleKeyboard

open Base KbdsClient

/-- A read with `periodic_read.params`. -/
def GattRequest.isPeriodic : GattRequest → Bool
  | .periodicRead _ _ => true
  | .read _ _ | .subscribe _ _ | .unsubscribe _ _ => false

/-- The two modes. -/
structure Modes where
  /-- The periodic reads that the stack has accepted and not answered. -/
  inFlight : Nat
  /-- `bt_kbds_subscribe_keystates` has returned 0 on a client that supports notification,
  and `bt_kbds_start_per_read_keystates` has not since. -/
  notifying : Bool
  deriving DecidableEq, Repr

namespace Modes

/-- The call is a subscription that succeeds, and the peer has a CCC descriptor. -/
def Switches (kbds : KbdsClient) : Op → Prop
  | .subscribeKeystates func gattErr =>
    (kbds.subscribeKeystates func gattErr).1 = 0 ∧ kbds.notify = true
  | _ => False

instance (kbds : KbdsClient) : DecidablePred (Switches kbds)
  | .subscribeKeystates _ _ => inferInstanceAs (Decidable (_ ∧ _))
  | .handlesAssign _ | .readKeystates _ _ | .unsubscribeKeystates _
  | .startPerReadKeystates _ _ | .stopPerReadKeystates | .kbdsReadValueHandler _
  | .notifyProcess _ | .readProcess _ _ | .periodicReadProcess _ _ | .disconnected _ _ =>
    inferInstanceAs (Decidable False)

/-- A call changes the mode, or starts or ends a periodic read. -/
def next (m : Modes) (kbds : KbdsClient) (op : Op) : Modes :=
  match op with
  | .subscribeKeystates _ _ => if Switches kbds op then { m with notifying := true } else m
  | .startPerReadKeystates interval func =>
    if (kbds.startPerReadKeystates interval func).1 = 0 then { m with notifying := false } else m
  | .kbdsReadValueHandler gattErr =>
    if kbds.kbdsReadValueHandler.2 ≠ [] ∧ gattErr = 0 then { m with inFlight := m.inFlight + 1 }
    else m
  | .periodicReadProcess _ _ => { m with inFlight := m.inFlight - 1 }
  | _ => m

/-- A response comes only to a read in flight. -/
def Allows (s : KbdsClient × Modes) : Op → Prop
  | .periodicReadProcess _ _ => 0 < s.2.inFlight
  | _ => True

instance (s : KbdsClient × Modes) : DecidablePred (Allows s)
  | .periodicReadProcess _ _ => inferInstanceAs (Decidable (_ < _))
  | .handlesAssign _ | .subscribeKeystates _ _ | .unsubscribeKeystates _ | .readKeystates _ _
  | .startPerReadKeystates _ _ | .stopPerReadKeystates | .kbdsReadValueHandler _
  | .notifyProcess _ | .readProcess _ _ | .disconnected _ _ => inferInstanceAs (Decidable True)

/-- While notifying, no periodic read is requested, and none changes the key state. -/
def Exclusive (s : KbdsClient × Modes) (op : Op) (t : KbdsClient × Modes) : Prop :=
  s.2.notifying = true →
    (∀ req ∈ s.1.requests op, req.isPeriodic = false) ∧
      match op with
      | .periodicReadProcess _ _ => t.1.keystates = s.1.keystates
      | _ => True

/-- No periodic read is in flight, and none will be started by work that is pending. -/
def Stopped (s : KbdsClient × Modes) : Prop :=
  s.2.inFlight = 0 ∧
    (s.1.periodicRead.readWorkPending = true → s.1.periodicRead.interval = 0)

/-- A switch finds periodic reading stopped. -/
def StopsFirst (s : KbdsClient × Modes) (op : Op) : Prop := Switches s.1 op → Stopped s

/-- While notifying, periodic reading is stopped. -/
def Inv (s : KbdsClient × Modes) : Prop := s.2.notifying = true → Stopped s

/-! ## One call -/

variable {kbds t : KbdsClient} {m : Modes}

/-- Only the handler of the work reads periodically, and not with the interval 0. -/
theorem eq_handler_of_isPeriodic {op : Op} {req : GattRequest} (h : req ∈ kbds.requests op)
    (hperiodic : req.isPeriodic = true) :
    (∃ gattErr, op = .kbdsReadValueHandler gattErr) ∧ kbds.periodicRead.interval ≠ 0 := by
  have hreq := kbds.requested h
  cases op with
  | kbdsReadValueHandler gattErr => exact ⟨⟨gattErr, rfl⟩, hreq.1⟩
  | subscribeKeystates func gattErr =>
    obtain ⟨-, params, rfl⟩ := hreq
    cases hperiodic
  | unsubscribeKeystates gattErr =>
    obtain rfl : req = _ := hreq
    cases hperiodic
  | readKeystates func gattErr =>
    obtain ⟨-, rfl⟩ := hreq
    cases hperiodic
  | _ => cases hreq

theorem Inv.exclusive {op : Op} (hs : Inv (kbds, m)) (hallow : Allows (kbds, m) op)
    (hstep : kbds.call op = some t) : Exclusive (kbds, m) op (t, m.next kbds op) := by
  intro hnotifying
  obtain ⟨hflight, hwork⟩ := hs hnotifying
  constructor
  · intro req hreq
    by_contra hperiodic
    obtain ⟨⟨gattErr, rfl⟩, hinterval⟩ :=
      eq_handler_of_isPeriodic hreq (Bool.eq_true_of_not_eq_false hperiodic)
    exact hinterval (hwork (Option.ite_none_right_eq_some.mp hstep).1)
  · cases op with
    | periodicReadProcess err data => exact absurd hflight (Nat.ne_of_gt hallow)
    | _ => trivial

theorem Inv.step {op : Op} (hs : Inv (kbds, m)) (hallow : Allows (kbds, m) op)
    (hfirst : StopsFirst (kbds, m) op) (hstep : kbds.call op = some t) :
    Inv (t, m.next kbds op) := by
  have ht := called hstep
  have hwork := ht.readWork
  have hinterval := ht.interval
  unfold Inv Stopped at hs ⊢
  dsimp only at hs ⊢
  rw [hwork, hinterval]
  cases op with
  | handlesAssign dm =>
    intro hnotifying
    refine ⟨(hs hnotifying).1, fun hpending => (hs hnotifying).2 ?_⟩
    exact (Bool.and_eq_true_iff.mp hpending).2
  | subscribeKeystates func gattErr =>
    rw [next]
    by_cases hswitch : Switches kbds (.subscribeKeystates func gattErr)
    · rw [if_pos hswitch]
      exact fun _ => hfirst hswitch
    · rw [if_neg hswitch]
      exact hs
  | startPerReadKeystates interval func =>
    rw [next]
    by_cases hr : kbds.RefusesPerRead interval
    · obtain ⟨ret, hret, heq⟩ := kbds.startPerReadKeystates_of_refuses func hr
      rw [heq, if_neg hret]
      simpa [nextReadWork, nextInterval, hr] using hs
    · rw [kbds.startPerReadKeystates_of_not_refuses func hr, if_pos rfl]
      exact fun hnotifying => absurd hnotifying Bool.false_ne_true
  | stopPerReadKeystates =>
    exact fun hnotifying => ⟨(hs hnotifying).1, fun h => absurd h Bool.false_ne_true⟩
  | kbdsReadValueHandler gattErr =>
    -- pending work that starts no read
    have hpending := (Option.ite_none_right_eq_some.mp hstep).1
    rw [next]
    split
    · next hreq =>
      intro hnotifying
      refine absurd ?_ hreq.1
      rw [kbdsReadValueHandler]
      exact congrArg Prod.snd (if_pos ((hs hnotifying).2 hpending))
    · exact fun hnotifying => ⟨(hs hnotifying).1, fun h => absurd h Bool.false_ne_true⟩
  | periodicReadProcess err data =>
    intro hnotifying
    exact absurd (hs hnotifying).1 (Nat.ne_of_gt hallow)
  | _ => exact hs

theorem kbdsReadValueHandler_requests (kbds : KbdsClient)
    (hinterval : kbds.periodicRead.interval ≠ 0) (hconn : kbds.conn ≠ none) :
    kbds.kbdsReadValueHandler.2 = [.periodicRead kbds.conn kbds.valHandle] := by
  rw [kbdsReadValueHandler]
  exact (congrArg Prod.snd (if_neg hinterval)).trans (congrArg Prod.snd (if_neg hconn))

/-- A switch that finds periodic reading under way: one more call breaks the rule. -/
theorem breaks_of_switch {op : Op} (hswitch : Switches kbds op) (hs : ¬Stopped (kbds, m))
    (hstep : kbds.call op = some t) : ∃ op' t', Allows (t, m.next kbds op) op' ∧
      t.call op' = some t' ∧
      ¬Exclusive (t, m.next kbds op) op' (t', (m.next kbds op).next t op') := by
  cases op with
  | subscribeKeystates func gattErr =>
    obtain ⟨hret, hnotify⟩ := hswitch
    have hsub : kbds.Subscribes := by
      by_contra hsub
      obtain ⟨ret, hne, heq⟩ := kbds.subscribeKeystates_of_not_subscribes func gattErr hsub
      rw [heq] at hret
      exact hne hret
    obtain ⟨params, heq⟩ := kbds.subscribeKeystates_of_subscribes func gattErr hsub
    rw [heq] at hret
    obtain rfl : gattErr = 0 := hret
    have ht := called hstep
    have hcb : t.notifyCb = some func := by
      rw [ht.notifyCb, nextNotifyCb, if_pos hsub, if_pos rfl]
    have hnext : m.next kbds (.subscribeKeystates func 0) = { m with notifying := true } :=
      if_pos ⟨congrArg Prod.fst heq, hnotify⟩
    rw [hnext]
    by_cases hflight : m.inFlight = 0
    · -- the work is pending, and starts a read
      obtain ⟨hpending, hinterval⟩ : kbds.periodicRead.readWorkPending = true ∧
          kbds.periodicRead.interval ≠ 0 := by
        by_contra hno
        exact hs ⟨hflight, fun hpending => not_not.mp fun hinterval => hno ⟨hpending, hinterval⟩⟩
      have hreq : t.requests (.kbdsReadValueHandler 0) = [.periodicRead t.conn t.valHandle] :=
        kbdsReadValueHandler_requests t (ht.interval ▸ hinterval) (ht.conn ▸ hsub.1)
      refine ⟨.kbdsReadValueHandler 0, _, trivial, if_pos (ht.readWork.trans hpending), ?_⟩
      intro hexclusive
      have hno : GattRequest.isPeriodic (.periodicRead t.conn t.valHandle) = false :=
        (hexclusive rfl).1 _ (hreq.symm ▸ List.mem_singleton_self _)
      cases hno
    · -- the read in flight is answered
      obtain ⟨b, hmax, hne⟩ : ∃ b : Byte, ¬(b.setWidth 32 : Word) > btKbdsValMax ∧
          t.keystates ≠ b.setWidth 32 := by
        by_cases hzero : t.keystates = 0
        · exact ⟨1, by decide, by rw [hzero]; decide⟩
        · exact ⟨0, by decide, hzero⟩
      refine ⟨.periodicReadProcess 0 (some [b]), _, Nat.pos_of_ne_zero hflight, rfl, ?_⟩
      intro hexclusive
      have hkept := (hexclusive rfl).2
      dsimp only at hkept
      rw [periodicReadProcess_keystates 0 (some [b]) t hcb, readStored_of_not_gt hmax,
        Option.getD_some] at hkept
      exact hne hkept.symm
  | _ => cases hswitch

end Modes

/-! ## Runs -/

/-- The calls in any order, with the mode and the periodic reads in flight. -/
def switching : Machine (KbdsClient × Modes) Op :=
  (client.recording ⟨0, false⟩ Modes.next).under Modes.Allows

/-- **Notification or periodic reading**: on a run in which every switch finds periodic reading
stopped, the client does not read periodically while it is notified. After any other switch,
it can: some call breaks the rule. -/
theorem modes_exclusive (ops : List Op) :
    (switching.Along (fun s op _ => Modes.StopsFirst s op) ops →
      switching.Along Modes.Exclusive ops) ∧
    ∀ s op t, switching.step s op = some t → ¬Modes.StopsFirst s op →
      ∃ op', ¬switching.AlongFrom Modes.Exclusive t [op'] := by
  constructor
  · intro hfirst
    refine Machine.AlongFrom.of_inv (I := Modes.Inv) nofun hfirst ?_
    rintro ⟨kbds, m⟩ op ⟨t, m'⟩ hs hfirst hstep
    obtain ⟨hallow, hcall, rfl⟩ := Machine.recording_under_step.mp hstep
    exact ⟨hs.step hallow hfirst hcall, hs.exclusive hallow hcall⟩
  · rintro ⟨kbds, m⟩ op ⟨t, m'⟩ hstep hnot
    obtain ⟨-, hcall, rfl⟩ := Machine.recording_under_step.mp hstep
    obtain ⟨hswitch, hs⟩ := Classical.not_imp.mp hnot
    obtain ⟨op', t', hallow', hcall', hbroken⟩ := Modes.breaks_of_switch hswitch hs hcall
    refine ⟨op', fun hall => hbroken ?_⟩
    rw [Machine.alongFrom_cons] at hall
    exact (hall (t', _) (Machine.recording_under_step.mpr ⟨hallow', hcall', rfl⟩)).1

/-- A peer without the descriptor comes back with it while a periodic read is in flight: its
response changes the key state behind the notifications, and starts the cycle again. -/
theorem periodic_read_survives_switch :
    let ops : List Op :=
      [.handlesAssign ⟨1, true, some btGattChrcNotify, some 3, none⟩,
        .startPerReadKeystates kbdsReadValueInterval .notifyKeystatesCb, .kbdsReadValueHandler 0,
        .handlesAssign ⟨1, true, some btGattChrcNotify, some 3, some 4⟩,
        .subscribeKeystates .notifyKeystatesCb 0, .periodicReadProcess 0 (some [5]),
        .kbdsReadValueHandler 0]
    ¬switching.Along Modes.Exclusive ops ∧
    ∃ s, switching.run ops = some s ∧ s.1.keystates = 5 ∧ s.2 = ⟨1, true⟩ := by
  refine ⟨?_, _, rfl, rfl, rfl⟩
  intro hall
  have hread := (hall.2.2.2.2.2.1 rfl).2
  exact absurd hread (by decide)

end BleKeyboard
