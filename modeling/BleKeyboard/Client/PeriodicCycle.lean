import BleKeyboard.Firmware.ClientCalls

/-!
# The cycle of periodic reads

A periodic read starts the next one: `kbds_read_value_handler` issues a read, its response
comes to `periodic_read_process`, and that schedules the work again. The handler runs in the
work queue and the response in a thread of the Bluetooth stack, so that
`bt_kbds_stop_per_read_keystates` can find the cycle anywhere. Here these functions are cut
where they look at what they share, and the pieces come in any order. A start stays whole:
from where it sets the interval on, reading is wanted again.

- `run_cycle`: left alone, the pieces do what the functions do;
- `stop_stops`: no run of the handler that begins after the interval has been cleared issues
  a read until a start returns 0, whether the work is cancelled or not.
-/

namespace BleKeyboard

open Base KbdsClient

namespace KbdsClient

/-- `periodic_read_process` up to where it reads the interval. -/
def periodicReadStore (err : Byte) (data : Data) (kbds : KbdsClient) :
    KbdsClient × Option NotifyReply :=
  match kbds.notifyCb with
  | none => (kbds, none)
  | some cb =>
    if err ≠ 0 then (kbds, none)
    else
      match data with
      | some [b] =>
        let keystates : Word := b.setWidth 32
        if keystates > btKbdsValMax then (kbds, none)
        else if kbds.keystates ≠ keystates then ({ kbds with keystates }, some ⟨cb, keystates⟩)
        else (kbds, none)
      | _ => (kbds, none)

/-- The rest of `periodic_read_process`, with the interval that it has read. -/
def reschedule (interval : Int) (kbds : KbdsClient) : KbdsClient :=
  if interval ≠ 0 then
    { kbds with periodicRead := { kbds.periodicRead with readWorkPending := true } }
  else kbds

/-- `atomic_set(&kbds->periodic_read.interval, 0)`. -/
def clearInterval (kbds : KbdsClient) : KbdsClient :=
  { kbds with periodicRead := { kbds.periodicRead with interval := 0 } }

/-- The work is pending no more: it has been cancelled, or its handler runs. -/
def takeWork (kbds : KbdsClient) : KbdsClient :=
  { kbds with periodicRead := { kbds.periodicRead with readWorkPending := false } }

/-- The handle of the next periodic read is filled in. -/
def fillParams (kbds : KbdsClient) : KbdsClient :=
  { kbds with periodicRead := { kbds.periodicRead with handle := kbds.valHandle } }

end KbdsClient

/-- What a run of `kbds_read_value_handler` does next. -/
inductive HandlerPc where
  /-- `atomic_get(&kbds->periodic_read.interval)` -/
  | interval
  /-- `if (!kbds->conn)` -/
  | conn
  /-- `bt_gatt_read` -/
  | read
  deriving DecidableEq, Repr

/-- The client in the middle of its cycle. -/
structure Cycle where
  kbds : KbdsClient
  /-- The run of the handler; the work queue runs it once at a time. -/
  run : Option HandlerPc
  /-- What runs of `periodic_read_process` have read as the interval, and not acted on. -/
  intervals : List Int

namespace Cycle

/-- A piece of one of the functions. `found` is whether `k_work_cancel_delayable` finds
something to cancel, and `i` which run of `periodic_read_process` goes on. -/
inductive Event where
  | startPerReadKeystates (interval : Int) (func : NotifyCb)
  | clearInterval
  | cancelWork (found : Bool)
  | takeWork
  | handler
  | response (err : Byte) (data : Data)
  | reschedule (i : Nat)

/-- One step of a run of the handler. -/
def advance (c : Cycle) : HandlerPc → Cycle
  | .interval => { c with run := if c.kbds.periodicRead.interval = 0 then none else some .conn }
  | .conn => { c with run := if c.kbds.conn = none then none else some .read }
  | .read => { c with kbds := c.kbds.fillParams, run := none }

/-- One event. `none`: there is nothing to take up or to go on with. -/
def react (c : Cycle) : Event → Option Cycle
  | .startPerReadKeystates interval func =>
    some { c with kbds := (c.kbds.startPerReadKeystates interval func).2 }
  | .clearInterval => some { c with kbds := c.kbds.clearInterval }
  | .cancelWork found => some { c with kbds := if found then c.kbds.takeWork else c.kbds }
  | .takeWork =>
    if c.kbds.periodicRead.readWorkPending = true ∧ c.run = none then
      some { c with kbds := c.kbds.takeWork, run := some .interval }
    else none
  | .handler => c.run.map c.advance
  | .response err data =>
    some { c with
      kbds := (c.kbds.periodicReadStore err data).1
      intervals := c.intervals ++ [c.kbds.periodicRead.interval] }
  | .reschedule i =>
    c.intervals[i]?.map fun interval =>
      { c with kbds := c.kbds.reschedule interval, intervals := c.intervals.eraseIdx i }

/-- The requests that an event makes of the stack. -/
def requests (c : Cycle) : Event → List GattRequest
  | .handler => if c.run = some .read then [.periodicRead c.kbds.conn c.kbds.valHandle] else []
  | _ => []

end Cycle

/-- The cycle, with its pieces in any order. -/
def cycle : Machine Cycle Cycle.Event where
  init := ⟨.clientInit, none, []⟩
  step := Cycle.react

/-! ## Left alone -/

namespace Cycle

/-- The call is one of the cycle. -/
def inCycle : Op → Bool
  | .startPerReadKeystates _ _ | .stopPerReadKeystates | .kbdsReadValueHandler _
  | .periodicReadProcess _ _ => true
  | _ => false

/-- The pieces of a call. -/
def pieces (kbds : KbdsClient) : Op → List Event
  | .startPerReadKeystates interval func => [.startPerReadKeystates interval func]
  | .stopPerReadKeystates => [.clearInterval, .cancelWork true]
  | .kbdsReadValueHandler _ =>
    if kbds.periodicRead.interval = 0 then [.takeWork, .handler]
    else if kbds.conn = none then [.takeWork, .handler, .handler]
    else [.takeWork, .handler, .handler, .handler]
  | .periodicReadProcess err data => [.response err data, .reschedule 0]
  | _ => []

theorem periodicReadProcess_eq (err : Byte) (data : Data) (kbds : KbdsClient) :
    kbds.periodicReadProcess err data =
      ((kbds.periodicReadStore err data).1.reschedule kbds.periodicRead.interval,
        (kbds.periodicReadStore err data).2) := by
  unfold periodicReadProcess periodicReadStore reschedule
  cases kbds.notifyCb with
  | none => rfl
  | some cb =>
    dsimp only
    by_cases herr : err ≠ 0
    · rw [if_pos herr, if_pos herr]
    · rw [if_neg herr, if_neg herr]
      rcases data with _ | _ | ⟨b, _ | _⟩
      · rfl
      · rfl
      · dsimp only
        split
        · rfl
        · split <;> rfl
      · rfl

/-- Up to there, `periodic_read_process` leaves the cycle alone. -/
theorem periodicReadStore_periodicRead (err : Byte) (data : Data) (kbds : KbdsClient) :
    (kbds.periodicReadStore err data).1.periodicRead = kbds.periodicRead := by
  unfold periodicReadStore
  cases kbds.notifyCb with
  | none => rfl
  | some cb =>
    dsimp only
    split
    · rfl
    · split
      · split
        · rfl
        · split <;> rfl
      · rfl

/-- The client between two calls. -/
def resting (kbds : KbdsClient) : Cycle := ⟨kbds, none, []⟩

variable {kbds t : KbdsClient}

/-- A run of the handler that nothing comes into. -/
theorem handler_pieces (hpending : kbds.periodicRead.readWorkPending = true) (gattErr : Int) :
    cycle.runFrom (resting kbds) (pieces kbds (.kbdsReadValueHandler gattErr))
        = some (resting kbds.kbdsReadValueHandler.1) ∧
      cycle.emitted requests (resting kbds) (pieces kbds (.kbdsReadValueHandler gattErr))
        = kbds.kbdsReadValueHandler.2 := by
  have htaken : cycle.step (resting kbds) .takeWork = some ⟨kbds.takeWork, some .interval, []⟩ :=
    if_pos ⟨hpending, rfl⟩
  rw [pieces, kbdsReadValueHandler]
  dsimp only
  by_cases hinterval : kbds.periodicRead.interval = 0
  · rw [if_pos hinterval, if_pos hinterval, Machine.runFrom_cons, Machine.emitted, htaken]
    simp [Machine.emitted, cycle, react, requests, advance, takeWork, resting, hinterval]
  · rw [if_neg hinterval, if_neg hinterval]
    by_cases hconn : kbds.conn = none
    · rw [if_pos hconn, if_pos hconn, Machine.runFrom_cons, Machine.emitted, htaken]
      simp [Machine.emitted, cycle, react, requests, advance, takeWork, resting, hinterval, hconn]
    · rw [if_neg hconn, if_neg hconn, Machine.runFrom_cons, Machine.emitted, htaken]
      simp [Machine.emitted, cycle, react, requests, advance, takeWork, fillParams, resting,
        hinterval, hconn]

/-- The pieces of a call do to the client what the call does, and make its requests. -/
theorem call_pieces {op : Op} (hop : inCycle op = true) (hcall : kbds.call op = some t) :
    cycle.runFrom (resting kbds) (pieces kbds op) = some (resting t) ∧
      cycle.emitted requests (resting kbds) (pieces kbds op) = kbds.requests op := by
  cases op with
  | startPerReadKeystates interval func | stopPerReadKeystates =>
    obtain rfl := Option.some.inj hcall
    exact ⟨rfl, rfl⟩
  | kbdsReadValueHandler gattErr =>
    obtain ⟨hpending, heq⟩ := Option.ite_none_right_eq_some.mp hcall
    obtain rfl := Option.some.inj heq
    exact handler_pieces hpending gattErr
  | periodicReadProcess err data =>
    obtain rfl := Option.some.inj hcall
    refine ⟨?_, rfl⟩
    rw [periodicReadProcess_eq]
    rfl
  | _ => cases hop

/-- **Left alone**, the calls of the cycle do to the client what their pieces do. -/
theorem run_cycle {ops : List Op}
    (hrun : (client.under fun _ op => inCycle op = true).runFrom kbds ops = some t) :
    cycle.runFrom (resting kbds)
        ((client.under fun _ op => inCycle op = true).emitted pieces kbds ops)
      = some (resting t) := by
  refine Machine.runFrom_emitted (f := resting) ?_ hrun
  intro s op t hstep
  obtain ⟨hop, hcall⟩ := Machine.under_step.mp hstep
  exact (call_pieces hop hcall).1

/-! ## After a stop -/

/-- The event is a `bt_kbds_start_per_read_keystates` that returns 0. -/
def Starts (c : Cycle) : Event → Prop
  | .startPerReadKeystates interval func => (c.kbds.startPerReadKeystates interval func).1 = 0
  | _ => False

/-- Whether the run of the handler has begun since. -/
def begun (b : Bool) (_ : Cycle) : Event → Bool
  | .takeWork => true
  | _ => b

/-- The interval is clear, and a run that has begun since has not got past it. -/
structure Stopped (s : Cycle × Bool) : Prop where
  interval : s.1.kbds.periodicRead.interval = 0
  run : s.2 = true → s.1.run ≠ none → s.1.run = some .interval

theorem Stopped.silent {c : Cycle} {b : Bool} (h : Stopped (c, b)) (e : Event) :
    b = true → c.requests e = [] := by
  intro hb
  cases e with
  | handler =>
    refine if_neg fun hread => ?_
    have hinterval := h.run hb (hread ▸ Option.some_ne_none _)
    rw [hread] at hinterval
    cases hinterval
  | _ => rfl

theorem Stopped.step {c c' : Cycle} {b : Bool} {e : Event} (h : Stopped (c, b))
    (he : ¬c.Starts e) (hstep : c.react e = some c') : Stopped (c', begun b c e) := by
  have hinterval : c.kbds.periodicRead.interval = 0 := h.interval
  cases e with
  | startPerReadKeystates interval func =>
    obtain rfl := Option.some.inj hstep
    -- a start that is refused changes nothing
    have hrefused : c.kbds.RefusesPerRead interval := by
      by_contra hstarts
      refine he ?_
      rw [Starts, c.kbds.startPerReadKeystates_of_not_refuses func hstarts]
    obtain ⟨ret, -, heq⟩ := c.kbds.startPerReadKeystates_of_refuses func hrefused
    refine ⟨?_, h.run⟩
    show (c.kbds.startPerReadKeystates interval func).2.periodicRead.interval = 0
    rw [heq]
    exact hinterval
  | clearInterval =>
    obtain rfl := Option.some.inj hstep
    exact ⟨rfl, h.run⟩
  | cancelWork found =>
    obtain rfl := Option.some.inj hstep
    cases found <;> exact ⟨hinterval, h.run⟩
  | takeWork =>
    obtain ⟨-, heq⟩ := Option.ite_none_right_eq_some.mp hstep
    obtain rfl := Option.some.inj heq
    exact ⟨hinterval, fun _ _ => rfl⟩
  | handler =>
    obtain ⟨pc, hpc, rfl⟩ := Option.map_eq_some_iff.mp hstep
    cases pc with
    | interval =>
      -- the run ends here, since the interval is clear
      have hended : (c.advance .interval).run = none := if_pos hinterval
      exact ⟨hinterval, fun _ hrun => absurd hended hrun⟩
    | conn | read =>
      refine ⟨hinterval, fun hb => ?_⟩
      have hlate := h.run hb (hpc ▸ Option.some_ne_none _)
      rw [hpc] at hlate
      cases hlate
  | response err data =>
    obtain rfl := Option.some.inj hstep
    refine ⟨?_, h.run⟩
    show (c.kbds.periodicReadStore err data).1.periodicRead.interval = 0
    rw [periodicReadStore_periodicRead]
    exact hinterval
  | reschedule i =>
    obtain ⟨interval, -, rfl⟩ := Option.map_eq_some_iff.mp hstep
    refine ⟨?_, h.run⟩
    show (c.kbds.reschedule interval).periodicRead.interval = 0
    unfold reschedule
    split <;> exact hinterval

end Cycle

/-- **Stop really stops**: wherever the cycle is when the interval is cleared, no run of the
handler that begins after that issues a read, until a start returns 0. -/
theorem stop_stops (c : Cycle) (es : List Cycle.Event) :
    (cycle.recording false Cycle.begun).UntilFrom (fun s e => s.1.Starts e)
      (fun s e _ => s.2 = true → s.1.requests e = [])
      ({ c with kbds := c.kbds.clearInterval }, false) es := by
  refine Machine.untilFrom_of_inv (I := Cycle.Stopped) es ⟨rfl, nofun⟩ ?_
  rintro ⟨c, b⟩ e ⟨c', b'⟩ h he hstep
  obtain ⟨hreact, rfl⟩ := Machine.recording_step.mp hstep
  exact ⟨h.step he hreact, h.silent e⟩

/-- A stop comes into the response of the first read. The work is scheduled once more, and its
handler ends at the interval. -/
example :
    let start : Cycle := Cycle.resting { KbdsClient.clientInit with conn := some 1 }
    cycle.emitted Cycle.requests start
      [.startPerReadKeystates 50 .notifyKeystatesCb, .takeWork, .handler, .handler, .handler,
        .response 0 (some [5]), .clearInterval, .cancelWork false, .reschedule 0, .takeWork,
        .handler] = [.periodicRead (some 1) 0] := by decide +kernel

end BleKeyboard
