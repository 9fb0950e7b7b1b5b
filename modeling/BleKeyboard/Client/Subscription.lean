import BleKeyboard.Firmware.ClientCalls

/-!
# The subscription and its callback

The stack holds `notify_params` from a subscription on, until it is taken back or the
connection ends. The client holds `notify_cb`, and clears it whenever it is assigned anew.
`connected` and `security_changed` each start a discovery, so that it is assigned anew while
the stack holds the subscription: the second `bt_gatt_subscribe` returns `-EALREADY`, and
`bt_kbds_subscribe_keystates` clears `notify_cb` for good.

`subscription_agrees_iff`: the two agree exactly on the runs in which whatever completes
such a sequence finds them in agreement, and the stack refuses no unsubscription.
-/

namespace BleKeyboard

open Base KbdsClient

/-- What the stack holds of the client's subscription. -/
structure Registration where
  /-- The connection on which `notify_params` is registered. -/
  conn : Option Conn
  /-- The last subscribe or discovery sequence has completed. -/
  completed : Bool
  deriving DecidableEq, Repr

namespace Registration

/-- The stack answers a request with `gattErr`. -/
def answer (gattErr : Int) (conn : Option Conn) : GattRequest → Option Conn
  | .subscribe c _ => if gattErr = 0 then c else conn
  | .unsubscribe _ _ => if gattErr = 0 then none else conn
  | _ => conn

/-- A call moves the registration by its request, and may begin or complete a sequence. -/
def next (r : Registration) (kbds : KbdsClient) : Op → Registration
  | .handlesAssign dm => if dm.isKbds then { r with completed := false } else r
  | .subscribeKeystates func gattErr =>
    ⟨(kbds.requests (.subscribeKeystates func gattErr)).foldl (answer gattErr) r.conn, true⟩
  | .startPerReadKeystates _ _ => { r with completed := true }
  | .unsubscribeKeystates gattErr =>
    { r with conn := (kbds.requests (.unsubscribeKeystates gattErr)).foldl (answer gattErr) r.conn }
  | .disconnected c _ => { r with conn := if r.conn = some c then none else r.conn }
  | _ => r

/-- `bt_gatt_subscribe` returns `-EALREADY` for parameters that are registered. -/
def Allows (s : KbdsClient × Registration) : Op → Prop
  | .subscribeKeystates _ gattErr => s.2.conn ≠ none → gattErr = -ealready
  | _ => True

instance (s : KbdsClient × Registration) : DecidablePred (Allows s)
  | .subscribeKeystates _ _ => inferInstanceAs (Decidable (_ → _))
  | .handlesAssign _ | .unsubscribeKeystates _ | .readKeystates _ _
  | .startPerReadKeystates _ _ | .stopPerReadKeystates | .kbdsReadValueHandler _
  | .notifyProcess _ | .readProcess _ _ | .periodicReadProcess _ _ | .disconnected _ _ =>
    inferInstanceAs (Decidable True)

/-- As long as the stack holds the subscription, there is a callback. -/
def Covered (s : KbdsClient × Registration) : Prop := s.2.conn ≠ none → s.1.notifyCb ≠ none

/-- The same, once the last subscribe or discovery sequence has completed. -/
def Agrees (s : KbdsClient × Registration) : Prop := s.2.completed = true → Covered s

/-- A call of `bt_kbds_subscribe_keystates` that fails leaves the callback alone. -/
def KeepsOnError (s : KbdsClient × Registration) (op : Op) (t : KbdsClient × Registration) :
    Prop :=
  match op with
  | .subscribeKeystates func gattErr =>
    (s.1.subscribeKeystates func gattErr).1 ≠ 0 → t.1.notifyCb = s.1.notifyCb
  | _ => True

/-- A call that completes a sequence without a new callback finds one if the stack holds the
subscription, and no unsubscription is refused after that. -/
def Sound (s : KbdsClient × Registration) : Op → Prop
  | .subscribeKeystates _ _ => Covered s
  | .startPerReadKeystates interval _ => s.1.RefusesPerRead interval → Covered s
  | .unsubscribeKeystates gattErr => s.2.completed = true → s.2.conn ≠ none → gattErr = 0
  | _ => True

/-- The client is assigned anew only when the stack holds nothing, and no unsubscription is
refused. -/
def Fresh (s : KbdsClient × Registration) : Op → Prop
  | .handlesAssign dm => dm.isKbds = true → s.2.conn = none
  | .unsubscribeKeystates gattErr => s.2.conn ≠ none → gattErr = 0
  | _ => True

/-! ## One call -/

variable {kbds t : KbdsClient} {r : Registration}

/-- Where the subscription stands after a call of `bt_kbds_subscribe_keystates`. -/
theorem covered_subscribe {func : NotifyCb} {gattErr : Int}
    (hallow : Allows (kbds, r) (.subscribeKeystates func gattErr))
    (ht : t.notifyCb = kbds.nextNotifyCb (.subscribeKeystates func gattErr)) :
    Covered (t, r.next kbds (.subscribeKeystates func gattErr)) ↔ Covered (kbds, r) := by
  unfold Covered
  rw [ht, nextNotifyCb, next]
  dsimp only [requests]
  by_cases hs : kbds.Subscribes
  · obtain ⟨params, heq⟩ := kbds.subscribeKeystates_of_subscribes func gattErr hs
    rw [heq, if_pos hs]
    by_cases hheld : r.conn = none
    · -- nothing is registered, and the call registers and sets the callback, or neither
      by_cases herr : gattErr = 0
      · simp [answer, herr, hheld]
      · simp [answer, herr, hheld]
    · -- the request is refused, and the callback is gone
      have herr : gattErr = -ealready := hallow hheld
      simp [answer, herr, hheld, hs.2.2, ealready]
  · obtain ⟨ret, -, heq⟩ := kbds.subscribeKeystates_of_not_subscribes func gattErr hs
    rw [heq, if_neg hs]
    exact Iff.rfl

theorem covered_startPerRead {interval : Int} {func : NotifyCb}
    (ht : t.notifyCb = kbds.nextNotifyCb (.startPerReadKeystates interval func)) :
    Covered (t, r.next kbds (.startPerReadKeystates interval func)) ↔
      (kbds.RefusesPerRead interval → Covered (kbds, r)) := by
  unfold Covered
  rw [ht, nextNotifyCb, next]
  by_cases hr : kbds.RefusesPerRead interval
  · simp [hr]
  · simp [hr]

/-- An unsubscription ends in agreement if the stack takes it, or holds nothing. -/
theorem covered_unsubscribe {gattErr : Int} (hcov : Covered (kbds, r))
    (ht : t.notifyCb = kbds.nextNotifyCb (.unsubscribeKeystates gattErr)) :
    Covered (t, r.next kbds (.unsubscribeKeystates gattErr)) ↔ (r.conn ≠ none → gattErr = 0) := by
  unfold Covered at hcov ⊢
  rw [ht, nextNotifyCb, next]
  dsimp only [requests] at hcov ⊢
  rw [unsubscribeKeystates]
  by_cases hcb : kbds.notifyCb = none
  · have hheld : r.conn = none := not_not.mp fun hheld => hcov hheld hcb
    simp [hcb, hheld]
  · by_cases herr : gattErr = 0
    · simp [hcb, answer, herr]
    · simp [hcb, answer, herr]

theorem covered_disconnected {conn : Conn} {isDefault : Bool} (hcov : Covered (kbds, r))
    (ht : t.notifyCb = kbds.notifyCb) : Covered (t, r.next kbds (.disconnected conn isDefault)) := by
  unfold Covered at hcov ⊢
  rw [ht, next]
  by_cases hconn : r.conn = some conn
  · simp [hconn]
  · simpa [hconn] using hcov

theorem agrees_iff_sound {op : Op} (hs : Agrees (kbds, r)) (hallow : Allows (kbds, r) op)
    (hstep : kbds.call op = some t) : Agrees (t, r.next kbds op) ↔ Sound (kbds, r) op := by
  have ht := (called hstep).notifyCb
  cases op with
  | handlesAssign dm =>
    refine iff_of_true ?_ trivial
    unfold Agrees Covered at hs ⊢
    rw [ht, nextNotifyCb, next]
    cases dm.isKbds with
    | true => exact nofun
    | false => exact hs
  | subscribeKeystates func gattErr =>
    exact (forall_prop_of_true rfl).trans (covered_subscribe hallow ht)
  | startPerReadKeystates interval func =>
    exact (forall_prop_of_true rfl).trans (covered_startPerRead ht)
  | unsubscribeKeystates gattErr =>
    exact forall_congr' fun hcompleted => covered_unsubscribe (hs hcompleted) ht
  | disconnected conn isDefault =>
    exact iff_of_true (fun hcompleted => covered_disconnected (hs hcompleted) ht) trivial
  | _ =>
    refine iff_of_true ?_ trivial
    unfold Agrees Covered at hs ⊢
    rw [ht]
    exact hs

/-- If the client is assigned anew only when the stack holds nothing, there is a callback in
the middle of a sequence, too. -/
theorem covered_of_fresh {op : Op} (hs : Covered (kbds, r)) (hallow : Allows (kbds, r) op)
    (hfresh : Fresh (kbds, r) op) (hstep : kbds.call op = some t) :
    Covered (t, r.next kbds op) := by
  have ht := (called hstep).notifyCb
  cases op with
  | handlesAssign dm =>
    unfold Covered at hs ⊢
    rw [ht, nextNotifyCb, next]
    cases hkbds : dm.isKbds with
    | true => exact fun hheld => absurd (hfresh hkbds) hheld
    | false => exact hs
  | subscribeKeystates func gattErr => exact (covered_subscribe hallow ht).mpr hs
  | startPerReadKeystates interval func => exact (covered_startPerRead ht).mpr fun _ => hs
  | unsubscribeKeystates gattErr => exact (covered_unsubscribe hs ht).mpr hfresh
  | disconnected conn isDefault => exact covered_disconnected hs ht
  | _ =>
    unfold Covered at hs ⊢
    rw [ht]
    exact hs

theorem sound_of_fresh {s : KbdsClient × Registration} {op : Op} (hs : Covered s)
    (hfresh : Fresh s op) : Sound s op := by
  cases op with
  | subscribeKeystates func gattErr => exact hs
  | startPerReadKeystates interval func => exact fun _ => hs
  | unsubscribeKeystates gattErr => exact fun _ => hfresh
  | _ => trivial

theorem keepsOnError {op : Op} (hstep : kbds.call op = some t) :
    KeepsOnError (kbds, r) op (t, r.next kbds op) := by
  have ht := (called hstep).notifyCb
  cases op with
  | subscribeKeystates func gattErr =>
    intro hret
    show t.notifyCb = kbds.notifyCb
    rw [ht, nextNotifyCb]
    dsimp only at hret
    by_cases hs : kbds.Subscribes
    · obtain ⟨params, heq⟩ := kbds.subscribeKeystates_of_subscribes func gattErr hs
      rw [heq] at hret
      rw [if_pos hs, if_neg hret, hs.2.2]
    · rw [if_neg hs]
  | _ => trivial

end Registration

/-! ## Runs -/

/-- The calls in any order, with what the stack holds of the subscription. -/
def subscribing : Machine (KbdsClient × Registration) Op :=
  (client.recording ⟨none, true⟩ Registration.next).under Registration.Allows

/-- **Subscription and callback agree** in every state of a run, and no failing subscribe
call touches the callback, exactly on the runs whose calls are all sound. They are if the
client is assigned anew only when the stack holds nothing. -/
theorem subscription_agrees_iff (ops : List Op) :
    (subscribing.Always Registration.Agrees ops ∧ subscribing.Along Registration.KeepsOnError ops ↔
      subscribing.Along (fun s op _ => Registration.Sound s op) ops) ∧
    (subscribing.Along (fun s op _ => Registration.Fresh s op) ops →
      subscribing.Along (fun s op _ => Registration.Sound s op) ops) := by
  have hagrees : subscribing.Always Registration.Agrees ops ↔
      subscribing.Along (fun s op _ => Registration.Sound s op) ops := by
    refine Machine.always_iff (fun _ => absurd rfl) ?_
    rintro ⟨kbds, r⟩ op ⟨t, r'⟩ hs hstep
    obtain ⟨hallow, hcall, rfl⟩ := Machine.recording_under_step.mp hstep
    exact Registration.agrees_iff_sound hs hallow hcall
  have hkeeps : subscribing.Along Registration.KeepsOnError ops := by
    refine Machine.alongFrom_of_step _ ops ?_
    rintro ⟨kbds, r⟩ op ⟨t, r'⟩ hstep
    obtain ⟨-, hcall, rfl⟩ := Machine.recording_under_step.mp hstep
    exact Registration.keepsOnError hcall
  refine ⟨(and_iff_left hkeeps).trans hagrees, ?_⟩
  intro hfresh
  refine Machine.AlongFrom.of_inv (I := Registration.Covered) (absurd rfl) hfresh ?_
  rintro ⟨kbds, r⟩ op ⟨t, r'⟩ hs hfresh hstep
  obtain ⟨hallow, hcall, rfl⟩ := Machine.recording_under_step.mp hstep
  exact ⟨Registration.covered_of_fresh hs hallow hfresh hcall,
    Registration.sound_of_fresh hs hfresh⟩

/-- Two discoveries on one connection: notifications keep coming, and nobody is called. -/
theorem callback_lost_on_rediscovery :
    let dm : Discovery := ⟨1, true, some btGattChrcNotify, some 3, some 4⟩
    let ops : List Op :=
      [.handlesAssign dm, .subscribeKeystates .notifyKeystatesCb 0,
        .handlesAssign dm, .subscribeKeystates .notifyKeystatesCb (-ealready)]
    ¬subscribing.Always Registration.Agrees ops ∧
    ∃ s, subscribing.run ops = some s ∧ s.2 = ⟨some 1, true⟩ ∧ s.1.notifyCb = none := by
  refine ⟨?_, _, rfl, rfl, rfl⟩
  intro hall
  exact hall.last rfl rfl nofun rfl

end BleKeyboard
