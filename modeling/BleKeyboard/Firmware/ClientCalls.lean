import BleKeyboard.Firmware.Step

/-!
# Calls of the KBDS client

The functions of `kbds_client.c` in any order: the API, the handlers of notifications and
of responses, the work item, and the end of a link as `disconnected` treats it. What the
stack returns to a request is part of the call.

`called` says what each call leaves in the fields of the client that the results on its
calls argue about, and `run_client` that the client of the firmware goes through such calls.
-/

namespace BleKeyboard

open Base

/-- The connection a request is made on. -/
def GattRequest.conn : GattRequest → Option Conn
  | .read conn _ | .periodicRead conn _ | .subscribe conn _ | .unsubscribe conn _ => conn

namespace KbdsClient

/-- A call. `gattErr` is what the stack returns to the request that the call makes, and
`isDefault` whether the connection is `default_conn`. -/
inductive Op where
  | handlesAssign (dm : Discovery)
  | subscribeKeystates (func : NotifyCb) (gattErr : Int)
  | unsubscribeKeystates (gattErr : Int)
  | readKeystates (func : ReadCb) (gattErr : Int)
  | startPerReadKeystates (interval : Int) (func : NotifyCb)
  | stopPerReadKeystates
  | kbdsReadValueHandler (gattErr : Int)
  | notifyProcess (data : Data)
  | readProcess (err : Byte) (data : Data)
  | periodicReadProcess (err : Byte) (data : Data)
  | disconnected (conn : Conn) (isDefault : Bool)

/-- The client after a call. `none`: a work item that is not pending, or a notification
that is read past its end. -/
def call (kbds : KbdsClient) : Op → Option KbdsClient
  | .handlesAssign dm => some (kbds.handlesAssign dm).2
  | .subscribeKeystates func gattErr => some (kbds.subscribeKeystates func gattErr).2.1
  | .unsubscribeKeystates gattErr => some (kbds.unsubscribeKeystates gattErr).2.1
  | .readKeystates func gattErr => some (kbds.readKeystates func gattErr).2.1
  | .startPerReadKeystates interval func => some (kbds.startPerReadKeystates interval func).2
  | .stopPerReadKeystates => some kbds.stopPerReadKeystates
  | .kbdsReadValueHandler _ =>
    if kbds.periodicRead.readWorkPending then some kbds.kbdsReadValueHandler.1 else none
  | .notifyProcess data => (kbds.notifyProcess data).map Prod.fst
  | .readProcess err data => some (kbds.readProcess err data).1
  | .periodicReadProcess err data => some (kbds.periodicReadProcess err data).1
  | .disconnected _ isDefault =>
    some (if isDefault then { kbds with keystates := 0x00 } else kbds)

/-- The requests that a call makes of the stack. -/
def requests (kbds : KbdsClient) : Op → List GattRequest
  | .subscribeKeystates func gattErr => (kbds.subscribeKeystates func gattErr).2.2
  | .unsubscribeKeystates gattErr => (kbds.unsubscribeKeystates gattErr).2.2
  | .readKeystates func gattErr => (kbds.readKeystates func gattErr).2.2
  | .kbdsReadValueHandler _ => kbds.kbdsReadValueHandler.2
  | _ => []

/-- `bt_kbds_subscribe_keystates` gets as far as its request. -/
def Subscribes (kbds : KbdsClient) : Prop :=
  kbds.conn ≠ none ∧ kbds.properties &&& btGattChrcNotify ≠ 0 ∧ kbds.notifyCb = none

instance (kbds : KbdsClient) : Decidable kbds.Subscribes := inferInstanceAs (Decidable (_ ∧ _))

/-- `bt_kbds_read_keystates` gets as far as its request. -/
def Reads (kbds : KbdsClient) : Prop := kbds.conn ≠ none ∧ kbds.readCb = none

instance (kbds : KbdsClient) : Decidable kbds.Reads := inferInstanceAs (Decidable (_ ∧ _))

/-- `bt_kbds_start_per_read_keystates` is refused. -/
def RefusesPerRead (kbds : KbdsClient) (interval : Int) : Prop :=
  interval = 0 ∨ kbds.notify = true

instance (kbds : KbdsClient) (interval : Int) : Decidable (kbds.RefusesPerRead interval) :=
  inferInstanceAs (Decidable (_ ∨ _))

section

variable (kbds : KbdsClient)

/-! ## What the functions return and request -/

theorem subscribeKeystates_of_not_subscribes (func : NotifyCb) (gattErr : Int)
    (h : ¬kbds.Subscribes) :
    ∃ ret, ret ≠ 0 ∧ kbds.subscribeKeystates func gattErr = (ret, kbds, []) := by
  unfold subscribeKeystates
  by_cases hconn : kbds.conn = none
  · exact ⟨_, by decide, if_pos hconn⟩
  · rw [if_neg hconn]
    by_cases hprop : kbds.properties &&& btGattChrcNotify = 0
    · exact ⟨_, by decide, if_pos hprop⟩
    · rw [if_neg hprop]
      exact ⟨_, by decide, if_pos fun hcb => h ⟨hconn, hprop, hcb⟩⟩

theorem subscribeKeystates_of_subscribes (func : NotifyCb) (gattErr : Int) (h : kbds.Subscribes) :
    ∃ params, kbds.subscribeKeystates func gattErr =
      (gattErr,
        { kbds with
          notifyParams := params
          notifyCb := if gattErr = 0 then some func else none },
        [.subscribe kbds.conn params]) := by
  obtain ⟨hconn, hprop, hcb⟩ := h
  refine ⟨⟨btGattCccNotify, kbds.valHandle, kbds.cccHandle, true⟩, ?_⟩
  rw [subscribeKeystates, if_neg hconn, if_neg hprop, if_neg (not_not.mpr hcb)]
  dsimp only
  split <;> simp_all

theorem readKeystates_of_not_reads (func : ReadCb) (gattErr : Int) (h : ¬kbds.Reads) :
    ∃ ret, ret ≠ 0 ∧ kbds.readKeystates func gattErr = (ret, kbds, []) := by
  unfold readKeystates
  by_cases hconn : kbds.conn = none
  · exact ⟨_, by decide, if_pos hconn⟩
  · rw [if_neg hconn]
    exact ⟨_, by decide, if_pos fun hcb => h ⟨hconn, hcb⟩⟩

theorem readKeystates_of_reads (func : ReadCb) (gattErr : Int) (h : kbds.Reads) :
    kbds.readKeystates func gattErr =
      (gattErr,
        { kbds with
          readCb := if gattErr = 0 then some func else none
          readHandle := kbds.valHandle },
        [.read kbds.conn kbds.valHandle]) := by
  rw [readKeystates, if_neg h.1, if_neg (not_not.mpr h.2)]
  dsimp only
  split <;> simp_all

theorem startPerReadKeystates_of_refuses {interval : Int} (func : NotifyCb)
    (h : kbds.RefusesPerRead interval) :
    ∃ ret, ret ≠ 0 ∧ kbds.startPerReadKeystates interval func = (ret, kbds) := by
  unfold startPerReadKeystates
  by_cases hzero : interval = 0
  · exact ⟨_, by decide, if_pos hzero⟩
  · rw [if_neg hzero]
    exact ⟨_, by decide, if_pos (h.resolve_left hzero)⟩

theorem startPerReadKeystates_of_not_refuses {interval : Int} (func : NotifyCb)
    (h : ¬kbds.RefusesPerRead interval) :
    kbds.startPerReadKeystates interval func =
      (0, { kbds with notifyCb := some func, periodicRead := ⟨true, kbds.periodicRead.handle,
        interval⟩ }) := by
  rw [startPerReadKeystates, if_neg fun hzero => h (.inl hzero), if_neg fun hn => h (.inr hn)]

/-- A request that a call makes, and what the call has checked before. -/
def Requested : Op → GattRequest → Prop
  | .subscribeKeystates _ _, req => kbds.Subscribes ∧ ∃ params, req = .subscribe kbds.conn params
  | .unsubscribeKeystates _, req => req = .unsubscribe kbds.conn kbds.notifyParams
  | .readKeystates _ _, req => kbds.Reads ∧ req = .read kbds.conn kbds.valHandle
  | .kbdsReadValueHandler _, req =>
    kbds.periodicRead.interval ≠ 0 ∧ kbds.conn ≠ none ∧
      req = .periodicRead kbds.conn kbds.valHandle
  | _, _ => False

theorem requested {op : Op} {req : GattRequest} (h : req ∈ kbds.requests op) :
    kbds.Requested op req := by
  cases op with
  | subscribeKeystates func gattErr =>
    rw [requests] at h
    by_cases hs : kbds.Subscribes
    · obtain ⟨params, heq⟩ := kbds.subscribeKeystates_of_subscribes func gattErr hs
      rw [heq] at h
      exact ⟨hs, params, List.mem_singleton.mp h⟩
    · obtain ⟨ret, -, heq⟩ := kbds.subscribeKeystates_of_not_subscribes func gattErr hs
      rw [heq] at h
      cases h
  | unsubscribeKeystates gattErr =>
    rw [requests, unsubscribeKeystates] at h
    split at h
    · cases h
    · exact List.mem_singleton.mp h
  | readKeystates func gattErr =>
    rw [requests] at h
    by_cases hr : kbds.Reads
    · rw [kbds.readKeystates_of_reads func gattErr hr] at h
      exact ⟨hr, List.mem_singleton.mp h⟩
    · obtain ⟨ret, -, heq⟩ := kbds.readKeystates_of_not_reads func gattErr hr
      rw [heq] at h
      cases h
  | kbdsReadValueHandler gattErr =>
    rw [requests, kbdsReadValueHandler] at h
    dsimp only at h
    split at h
    · cases h
    · next hinterval =>
      split at h
      · cases h
      · next hconn => exact ⟨hinterval, hconn, List.mem_singleton.mp h⟩
  | _ => cases h

end

/-! ## What the calls leave behind -/

/-- `bt_kbds_handles_assign` finds the characteristic and its value. -/
def Discovery.complete (dm : Discovery) : Bool :=
  dm.isKbds && dm.chrcProperties.isSome && dm.valueHandle.isSome

theorem handlesAssign_ret (kbds : KbdsClient) (dm : Discovery) :
    (kbds.handlesAssign dm).1 = 0 ↔ dm.complete = true := by
  obtain ⟨conn, isKbds, chrc, value, ccc⟩ := dm
  cases isKbds with
  | false => exact iff_of_false (by decide : -enotsup ≠ 0) nofun
  | true =>
    cases chrc with
    | none => exact iff_of_false (by decide : -einval ≠ 0) nofun
    | some properties =>
      cases value with
      | none => exact iff_of_false (by decide : -einval ≠ 0) nofun
      | some valHandle => exact iff_of_true rfl rfl

/-- The connection after a call. -/
def nextConn (kbds : KbdsClient) : Op → Option Conn
  | .handlesAssign dm =>
    if dm.complete then some dm.conn else if dm.isKbds then none else kbds.conn
  | _ => kbds.conn

/-- Whether notification is supported, after a call. -/
def nextNotify (kbds : KbdsClient) : Op → Bool
  | .handlesAssign dm => if dm.isKbds then dm.complete && dm.cccHandle.isSome else kbds.notify
  | _ => kbds.notify

/-- The notification callback after a call. -/
def nextNotifyCb (kbds : KbdsClient) : Op → Option NotifyCb
  | .handlesAssign dm => if dm.isKbds then none else kbds.notifyCb
  | .subscribeKeystates func gattErr =>
    if kbds.Subscribes then if gattErr = 0 then some func else none else kbds.notifyCb
  | .unsubscribeKeystates _ => none
  | .startPerReadKeystates interval func =>
    if kbds.RefusesPerRead interval then kbds.notifyCb else some func
  | _ => kbds.notifyCb

/-- The read callback after a call. -/
def nextReadCb (kbds : KbdsClient) : Op → Option ReadCb
  | .handlesAssign dm => if dm.isKbds then none else kbds.readCb
  | .readKeystates func gattErr =>
    if kbds.Reads then if gattErr = 0 then some func else none else kbds.readCb
  | .readProcess _ _ => none
  | _ => kbds.readCb

/-- Whether the delayed work is pending, after a call. -/
def nextReadWork (kbds : KbdsClient) : Op → Bool
  | .handlesAssign dm => !dm.isKbds && kbds.periodicRead.readWorkPending
  | .startPerReadKeystates interval _ =>
    !decide (kbds.RefusesPerRead interval) || kbds.periodicRead.readWorkPending
  | .stopPerReadKeystates | .kbdsReadValueHandler _ => false
  | .periodicReadProcess _ _ =>
    decide (kbds.periodicRead.interval ≠ 0) || kbds.periodicRead.readWorkPending
  | _ => kbds.periodicRead.readWorkPending

/-- The interval of the periodic read after a call. -/
def nextInterval (kbds : KbdsClient) : Op → Int
  | .startPerReadKeystates interval _ =>
    if kbds.RefusesPerRead interval then kbds.periodicRead.interval else interval
  | .stopPerReadKeystates => 0
  | _ => kbds.periodicRead.interval

/-- **One call, field by field.** -/
structure Called (kbds : KbdsClient) (op : Op) (t : KbdsClient) : Prop where
  conn : t.conn = kbds.nextConn op
  notify : t.notify = kbds.nextNotify op
  notifyCb : t.notifyCb = kbds.nextNotifyCb op
  readCb : t.readCb = kbds.nextReadCb op
  readWork : t.periodicRead.readWorkPending = kbds.nextReadWork op
  interval : t.periodicRead.interval = kbds.nextInterval op

variable {kbds t : KbdsClient}

theorem called_handlesAssign (dm : Discovery) :
    kbds.Called (.handlesAssign dm) (kbds.handlesAssign dm).2 := by
  obtain ⟨conn, isKbds, chrc, value, ccc⟩ := dm
  cases isKbds with
  | false => exact ⟨rfl, rfl, rfl, rfl, rfl, rfl⟩
  | true => cases chrc <;> cases value <;> cases ccc <;> exact ⟨rfl, rfl, rfl, rfl, rfl, rfl⟩

theorem called_periodicReadProcess (err : Byte) (data : Data) :
    kbds.Called (.periodicReadProcess err data) (kbds.periodicReadProcess err data).1 := by
  have hreschedule : ∀ keystates, kbds.Called (.periodicReadProcess err data)
      (if kbds.periodicRead.interval ≠ 0 then
        { kbds with
          keystates, periodicRead := { kbds.periodicRead with readWorkPending := true } }
      else { kbds with keystates }) := by
    intro keystates
    by_cases hinterval : kbds.periodicRead.interval ≠ 0
    · rw [if_pos hinterval]
      exact ⟨rfl, rfl, rfl, rfl, by simp [nextReadWork, hinterval], rfl⟩
    · rw [if_neg hinterval]
      exact ⟨rfl, rfl, rfl, rfl, by simp [nextReadWork, hinterval], rfl⟩
  unfold periodicReadProcess
  dsimp only
  split
  · exact hreschedule kbds.keystates
  · split
    · exact hreschedule kbds.keystates
    · split
      · split
        · exact hreschedule kbds.keystates
        · split
          · exact hreschedule _
          · exact hreschedule kbds.keystates
      · exact hreschedule kbds.keystates

theorem called {op : Op} (h : kbds.call op = some t) : kbds.Called op t := by
  cases op with
  | handlesAssign dm =>
    obtain rfl := Option.some.inj h
    exact called_handlesAssign dm
  | subscribeKeystates func gattErr =>
    obtain rfl := Option.some.inj h
    by_cases hs : kbds.Subscribes
    · obtain ⟨params, heq⟩ := kbds.subscribeKeystates_of_subscribes func gattErr hs
      rw [heq]
      exact ⟨rfl, rfl, (if_pos hs).symm, rfl, rfl, rfl⟩
    · obtain ⟨ret, -, heq⟩ := kbds.subscribeKeystates_of_not_subscribes func gattErr hs
      rw [heq]
      exact ⟨rfl, rfl, (if_neg hs).symm, rfl, rfl, rfl⟩
  | unsubscribeKeystates gattErr =>
    obtain rfl := Option.some.inj h
    unfold unsubscribeKeystates
    by_cases hcb : kbds.notifyCb = none
    · rw [if_pos hcb]
      exact ⟨rfl, rfl, hcb, rfl, rfl, rfl⟩
    · rw [if_neg hcb]
      exact ⟨rfl, rfl, rfl, rfl, rfl, rfl⟩
  | readKeystates func gattErr =>
    obtain rfl := Option.some.inj h
    by_cases hr : kbds.Reads
    · rw [kbds.readKeystates_of_reads func gattErr hr]
      exact ⟨rfl, rfl, rfl, (if_pos hr).symm, rfl, rfl⟩
    · obtain ⟨ret, -, heq⟩ := kbds.readKeystates_of_not_reads func gattErr hr
      rw [heq]
      exact ⟨rfl, rfl, rfl, (if_neg hr).symm, rfl, rfl⟩
  | startPerReadKeystates interval func =>
    obtain rfl := Option.some.inj h
    by_cases hr : kbds.RefusesPerRead interval
    · obtain ⟨ret, -, heq⟩ := kbds.startPerReadKeystates_of_refuses func hr
      rw [heq]
      exact ⟨rfl, rfl, (if_pos hr).symm, rfl, by simp [nextReadWork, hr], (if_pos hr).symm⟩
    · rw [kbds.startPerReadKeystates_of_not_refuses func hr]
      exact ⟨rfl, rfl, (if_neg hr).symm, rfl, by simp [nextReadWork, hr], (if_neg hr).symm⟩
  | stopPerReadKeystates =>
    obtain rfl := Option.some.inj h
    exact ⟨rfl, rfl, rfl, rfl, rfl, rfl⟩
  | kbdsReadValueHandler gattErr =>
    obtain ⟨-, heq⟩ := Option.ite_none_right_eq_some.mp h
    obtain rfl := Option.some.inj heq
    unfold kbdsReadValueHandler
    dsimp only
    split
    · exact ⟨rfl, rfl, rfl, rfl, rfl, rfl⟩
    · split <;> exact ⟨rfl, rfl, rfl, rfl, rfl, rfl⟩
  | notifyProcess data =>
    obtain ⟨r, hr, rfl⟩ := Option.map_eq_some_iff.mp h
    obtain ⟨keystates, -, hr⟩ := Option.bind_eq_some_iff.mp hr
    obtain rfl := Option.some.inj hr
    exact ⟨rfl, rfl, rfl, rfl, rfl, rfl⟩
  | readProcess err data =>
    obtain rfl := Option.some.inj h
    unfold readProcess
    cases kbds.readCb with
    | none => exact ⟨rfl, rfl, rfl, rfl, rfl, rfl⟩
    | some cb =>
      dsimp only
      split
      · exact ⟨rfl, rfl, rfl, rfl, rfl, rfl⟩
      · split
        · split <;> exact ⟨rfl, rfl, rfl, rfl, rfl, rfl⟩
        · exact ⟨rfl, rfl, rfl, rfl, rfl, rfl⟩
  | periodicReadProcess err data =>
    obtain rfl := Option.some.inj h
    exact called_periodicReadProcess err data
  | disconnected conn isDefault =>
    obtain rfl := Option.some.inj h
    cases isDefault <;> exact ⟨rfl, rfl, rfl, rfl, rfl, rfl⟩

end KbdsClient

/-- The client, under any calls. -/
def client : Machine KbdsClient KbdsClient.Op where
  init := .clientInit
  step := KbdsClient.call

/-! ## Runs of the firmware -/

namespace Firmware

universe u

variable {κ : Type u} {sendErr : Nat → Int}

/-- The calls that an event makes. -/
def clientOps (fw : Firmware κ) : Event κ → List KbdsClient.Op
  | .disconnected conn role _ =>
    [.disconnected conn (decide (role = .central ∧ fw.defaultConn = some conn))]
  | .discoveryCompleted dm subscribeErr readErr =>
    [.handlesAssign dm,
      if (fw.kbds.handlesAssign dm).2.notify then
        .subscribeKeystates .notifyKeystatesCb subscribeErr
      else .startPerReadKeystates kbdsReadValueInterval .notifyKeystatesCb,
      .readKeystates .readKeystatesCb readErr]
  | .notified data => [.notifyProcess data]
  | .readResponse err data => [.readProcess err data]
  -- whether the stack takes the read changes nothing for the client
  | .readWork => [.kbdsReadValueHandler 0]
  | .periodicResponse err data => [.periodicReadProcess err data]
  | _ => []

/-- An event does to the client what those calls do. -/
theorem step_client {fw fw' : Firmware κ} {e : Event κ} (h : fw.step sendErr e = some fw') :
    client.runFrom fw.kbds (fw.clientOps e) = some fw'.kbds := by
  rw [(stepped h).kbds]
  cases e with
  | disconnected conn role advErr =>
    simp only [clientOps, nextKbds, Machine.runFrom_cons, client, KbdsClient.call,
      decide_eq_true_iff]
    rfl
  | discoveryCompleted dm subscribeErr readErr =>
    rw [clientOps, nextKbds, discoveryCompletedCb]
    dsimp only
    split <;> rfl
  | notified data =>
    obtain ⟨r, hr, -⟩ := notified_of_step h
    simp [clientOps, nextKbds, client, KbdsClient.call, hr]
  | readWork =>
    obtain ⟨hpending, -⟩ := readWork_of_step h
    simp [clientOps, nextKbds, client, KbdsClient.call, hpending]
  | _ => rfl

/-- The client of the firmware goes through a run of its own. -/
theorem run_client {fw : Firmware κ} {es : List (Event κ)}
    (hrun : (firmware κ sendErr).run es = some fw) :
    client.run ((firmware κ sendErr).emitted clientOps .init es) = some fw.kbds :=
  Machine.runFrom_emitted (f := kbds) (fun _ _ _ => step_client) hrun

end Firmware

end BleKeyboard
