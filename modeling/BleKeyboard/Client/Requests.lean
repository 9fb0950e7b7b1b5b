import BleKeyboard.Firmware.ClientCalls

/-!
# The connection of a request

`kbds->conn` is what the last successful `bt_kbds_handles_assign` recorded. `disconnected`
leaves it alone: reading after a disconnection is not treated as an error, and left to the
stack to refuse.

`requests_on_recorded`: a request is made on that connection, and on no connection only by
`bt_kbds_unsubscribe_keystates`, the one function that does not look.
-/

namespace BleKeyboard

open Base KbdsClient

/-- The request comes from a function that checks the connection first. -/
def GattRequest.checked : GattRequest → Bool
  | .unsubscribe _ _ => false
  | .read _ _ | .periodicRead _ _ | .subscribe _ _ => true

/-- What the last successful `bt_kbds_handles_assign` recorded. -/
structure Assigned where
  conn : Option Conn
  /-- The connection has ended since. -/
  ended : Bool
  deriving DecidableEq, Repr

namespace Assigned

/-- A call records a connection, or the recorded one ends. -/
def next (a : Assigned) (kbds : KbdsClient) : Op → Assigned
  | .handlesAssign dm => if (kbds.handlesAssign dm).1 = 0 then ⟨some dm.conn, false⟩ else a
  | .disconnected conn _ => if a.conn = some conn then { a with ended := true } else a
  | _ => a

/-- Every request is made on the recorded connection, while it lasts. -/
def Live (s : KbdsClient × Assigned) (op : Op) : Prop :=
  ∀ req ∈ s.1.requests op, req.conn ≠ none ∧ req.conn = s.2.conn ∧ s.2.ended = false

/-- Every request on a connection is made on the recorded one, and every request that is
checked is made on a connection. -/
def Recorded (s : KbdsClient × Assigned) (op : Op) : Prop :=
  ∀ req ∈ s.1.requests op,
    (req.conn ≠ none → req.conn = s.2.conn) ∧ (req.checked = true → req.conn ≠ none)

/-- The client has no connection, or the recorded one. -/
def Inv (s : KbdsClient × Assigned) : Prop := s.1.conn ≠ none → s.1.conn = s.2.conn

variable {kbds t : KbdsClient} {a : Assigned}

/-- A request is made on the connection of the client. -/
theorem conn_of_mem_requests {op : Op} {req : GattRequest} (h : req ∈ kbds.requests op) :
    req.conn = kbds.conn ∧ (req.checked = true → kbds.conn ≠ none) := by
  have hreq := kbds.requested h
  cases op with
  | subscribeKeystates func gattErr =>
    obtain ⟨hs, params, rfl⟩ := hreq
    exact ⟨rfl, fun _ => hs.1⟩
  | unsubscribeKeystates gattErr =>
    obtain rfl : req = _ := hreq
    exact ⟨rfl, nofun⟩
  | readKeystates func gattErr =>
    obtain ⟨hr, rfl⟩ := hreq
    exact ⟨rfl, fun _ => hr.1⟩
  | kbdsReadValueHandler gattErr =>
    obtain ⟨-, hconn, rfl⟩ := hreq
    exact ⟨rfl, fun _ => hconn⟩
  | _ => cases hreq

theorem Inv.recorded (hs : Inv (kbds, a)) (op : Op) : Recorded (kbds, a) op := by
  intro req hreq
  obtain ⟨hconn, hchecked⟩ := conn_of_mem_requests hreq
  rw [hconn]
  exact ⟨hs, hchecked⟩

theorem Inv.step {op : Op} (hs : Inv (kbds, a)) (hstep : kbds.call op = some t) :
    Inv (t, a.next kbds op) := by
  have ht := (called hstep).conn
  unfold Inv at hs ⊢
  rw [ht]
  cases op with
  | handlesAssign dm =>
    rw [nextConn, next]
    dsimp only
    by_cases hcomplete : dm.complete = true
    · rw [if_pos hcomplete, if_pos ((kbds.handlesAssign_ret dm).mpr hcomplete)]
      exact fun _ => rfl
    · rw [if_neg hcomplete, if_neg fun hret => hcomplete ((kbds.handlesAssign_ret dm).mp hret)]
      split
      · exact absurd rfl
      · exact hs
  | disconnected conn isDefault =>
    show kbds.conn ≠ none → kbds.conn
      = (if a.conn = some conn then { a with ended := true } else a).conn
    split <;> exact hs
  | _ => exact hs

end Assigned

/-! ## Runs -/

/-- The calls in any order, with what was recorded. -/
def assigning : Machine (KbdsClient × Assigned) Op :=
  client.recording ⟨none, false⟩ Assigned.next

/-- **Requests on the recorded connection**, in every run. -/
theorem requests_on_recorded (ops : List Op) :
    assigning.Along (fun s op _ => Assigned.Recorded s op) ops := by
  refine Machine.alongFrom_of_inv (I := Assigned.Inv) ops (absurd rfl) ?_
  rintro ⟨kbds, a⟩ op ⟨t, a'⟩ hs hstep
  obtain ⟨hcall, rfl⟩ := Machine.recording_step.mp hstep
  exact ⟨hs.step hcall, hs.recorded op⟩

/-- The left half goes out of reach, and is read: the request is made on a connection that
has ended. -/
theorem request_after_disconnect :
    let dm : Discovery := ⟨1, true, some btGattChrcNotify, some 3, some 4⟩
    let ops : List Op := [.handlesAssign dm, .disconnected 1 true, .readKeystates .readKeystatesCb 0]
    ¬assigning.Along (fun s op _ => Assigned.Live s op) ops := by
  intro dm ops hall
  have hread := hall.2.2.1 (.read (some 1) 3) (List.mem_singleton_self _)
  exact absurd hread.2.2 nofun

end BleKeyboard
