import BleKeyboard.Base.MsgQueue
import BleKeyboard.Firmware.Report

/-!
# Pairing by numeric comparison (`main.c`, `mitm_queue` and its handlers)

Passkey requests wait in a bounded queue. `pairing_process`, run from a work
item, displays the head of the queue; the user's answer takes it out.

The code copies passkeys and prints them, and never looks at them, so the model
is generic in their type `κ`: a run in which every passkey carries a serial
number is a run of the same program.

The Bluetooth stack is not part of the sources: the calls a handler makes into it
are listed in its result.
-/

namespace BleKeyboard

open Base

universe u

/-- `struct pairing_data_mitm`. -/
structure PairingDataMitm (κ : Type u) where
  conn : Conn
  passkey : κ
  deriving DecidableEq, Repr

/-- A call into the Bluetooth stack, or a passkey shown to the user. -/
inductive PairingCall (κ : Type u) where
  | connRef (conn : Conn)
  | connUnref (conn : Conn)
  | authPasskeyConfirm (data : PairingDataMitm κ)
  | authCancel (data : PairingDataMitm κ)
  | display (data : PairingDataMitm κ)
  deriving DecidableEq, Repr

/-- `mitm_queue`, and whether `pairing_work` is pending. -/
structure Pairing (κ : Type u) where
  mitmQueue : MsgQueue (PairingDataMitm κ) hidsMaxClientCount
  workPending : Bool

namespace Pairing

variable {κ : Type u}

instance [DecidableEq κ] : DecidableEq (Pairing κ) := fun p q =>
  decidable_of_iff (p.mitmQueue = q.mitmQueue ∧ p.workPending = q.workPending) <| by
    cases p
    cases q
    simp

/-- No request, no work. -/
def empty : Pairing κ := ⟨.empty, false⟩

/-- `k_work_submit(&pairing_work)`. -/
def submit (p : Pairing κ) : Pairing κ := { p with workPending := true }

/-- `pairing_process`, run by the work queue. -/
def pairingProcess (p : Pairing κ) : Pairing κ × List (PairingCall κ) :=
  let p := { p with workPending := false }
  match p.mitmQueue.peek with
  | none => (p, [])
  | some pairingData => (p, [.display pairingData])

/-- `auth_passkey_confirm`. -/
def authPasskeyConfirm (conn : Conn) (passkey : κ) (p : Pairing κ) :
    Pairing κ × List (PairingCall κ) :=
  -- a request that finds the queue full is lost
  let p := { p with mitmQueue := (p.mitmQueue.put ⟨conn, passkey⟩).getD p.mitmQueue }
  (if p.mitmQueue.numUsed = 1 then p.submit else p, [.connRef conn])

/-- `auth_cancel` only prints. -/
def authCancel (_conn : Conn) (p : Pairing κ) : Pairing κ := p

/-- `pairing_failed`. -/
def pairingFailed (conn : Conn) (p : Pairing κ) : Pairing κ × List (PairingCall κ) :=
  match p.mitmQueue.peek with
  | none => (p, [])
  | some pairingData =>
    -- a request of `conn` further back stays
    if pairingData.conn = conn then
      ({ p with mitmQueue := p.mitmQueue.drop }, [.connUnref pairingData.conn])
    else (p, [])

/-- `num_comp_reply`. -/
def numCompReply (accept : Bool) (p : Pairing κ) : Pairing κ × List (PairingCall κ) :=
  match p.mitmQueue.get with
  | none => (p, [])
  | some (pairingData, mitmQueue) =>
    let p := { p with mitmQueue }
    let reply := if accept then .authPasskeyConfirm pairingData else .authCancel pairingData
    (if p.mitmQueue.numUsed ≠ 0 then p.submit else p, [reply, .connUnref pairingData.conn])

/-! ## What each handler does to the queue -/

section

variable (conn : Conn) (passkey : κ) (accept : Bool) (p : Pairing κ)

/-- A request joins the queue if there is room for it, and is lost otherwise. -/
theorem authPasskeyConfirm_items :
    (p.authPasskeyConfirm conn passkey).1.mitmQueue.items =
      if p.mitmQueue.items.length < hidsMaxClientCount then
        p.mitmQueue.items ++ [⟨conn, passkey⟩] else p.mitmQueue.items := by
  have hqueue : (p.authPasskeyConfirm conn passkey).1.mitmQueue
      = (p.mitmQueue.put ⟨conn, passkey⟩).getD p.mitmQueue := by
    rw [authPasskeyConfirm]
    dsimp only
    split <;> rfl
  rw [hqueue, MsgQueue.getD_put_items]

/-- The only request is submitted for display. -/
theorem authPasskeyConfirm_workPending :
    (p.authPasskeyConfirm conn passkey).1.workPending =
      if (p.authPasskeyConfirm conn passkey).1.mitmQueue.items.length = 1 then true
      else p.workPending := by
  rw [authPasskeyConfirm]
  dsimp only
  by_cases hone : ((p.mitmQueue.put ⟨conn, passkey⟩).getD p.mitmQueue).numUsed = 1
  · rw [if_pos hone]
    exact (if_pos hone).symm
  · rw [if_neg hone]
    exact (if_neg hone).symm

theorem pairingFailed_items :
    (p.pairingFailed conn).1.mitmQueue.items =
      if p.mitmQueue.items.head?.map PairingDataMitm.conn = some conn then p.mitmQueue.items.tail
      else p.mitmQueue.items := by
  rw [pairingFailed, MsgQueue.peek]
  cases p.mitmQueue.items.head? with
  | none => rfl
  | some d =>
    by_cases hd : d.conn = conn
    · simp [hd]
    · simp [hd]

theorem pairingFailed_workPending : (p.pairingFailed conn).1.workPending = p.workPending := by
  rw [pairingFailed]
  split
  · rfl
  · split <;> rfl

theorem numCompReply_items :
    (p.numCompReply accept).1.mitmQueue.items = p.mitmQueue.items.tail := by
  rw [numCompReply, MsgQueue.get, MsgQueue.peek]
  cases hitems : p.mitmQueue.items with
  | nil => exact hitems
  | cons d ds =>
    dsimp only [List.head?_cons, Option.map_some]
    split <;> exact congrArg List.tail hitems

/-- The answer is for the head. -/
theorem numCompReply_calls :
    (p.numCompReply accept).2 = p.mitmQueue.items.head?.elim [] fun pairingData =>
      [if accept then .authPasskeyConfirm pairingData else .authCancel pairingData,
        .connUnref pairingData.conn] := by
  rw [numCompReply, MsgQueue.get, MsgQueue.peek]
  cases p.mitmQueue.items.head? <;> rfl

/-- After an answer the next request is submitted for display. -/
theorem numCompReply_workPending :
    (p.numCompReply accept).1.workPending = (!p.mitmQueue.items.tail.isEmpty || p.workPending) := by
  rw [numCompReply, MsgQueue.get, MsgQueue.peek]
  cases hitems : p.mitmQueue.items with
  | nil => rfl
  | cons d ds =>
    have hdrop : p.mitmQueue.drop.items = ds := congrArg List.tail hitems
    simp only [List.head?_cons, Option.map_some, MsgQueue.numUsed, hdrop, List.tail_cons]
    cases ds <;> rfl

@[simp] theorem pairingProcess_mitmQueue : p.pairingProcess.1.mitmQueue = p.mitmQueue := by
  rw [pairingProcess]
  dsimp only
  split <;> rfl

@[simp] theorem pairingProcess_workPending : p.pairingProcess.1.workPending = false := by
  rw [pairingProcess]
  dsimp only
  split <;> rfl

end

end Pairing

end BleKeyboard
