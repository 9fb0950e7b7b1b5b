import BleKeyboard.Firmware.Step

/-!
# References taken for pairing

`auth_passkey_confirm` takes a reference to the connection before it puts the request
into `mitm_queue`, and keeps the reference when the put fails: "Pairing queue is full.
Purge previous data.", but nothing is purged and nothing given back.

`references_balanced_iff`: for every connection the references taken and not given back
are its requests in the queue, exactly on the runs in which no request finds the queue
full. The runs are over the functions that use the queue, called in any order;
`run_handlers` says that every run of the firmware is one of them.
-/

namespace BleKeyboard

open Base

universe u

variable {κ : Type u}

namespace Pairing

/-- A call of one of the functions that use `mitm_queue`. -/
inductive Handler (κ : Type u) where
  | pairingProcess
  | authPasskeyConfirm (conn : Conn) (passkey : κ)
  | authCancel (conn : Conn)
  | pairingFailed (conn : Conn)
  | numCompReply (accept : Bool)

/-- One call, with the stack calls that it makes. -/
def handle (p : Pairing κ) : Handler κ → Pairing κ × List (PairingCall κ)
  | .pairingProcess => p.pairingProcess
  | .authPasskeyConfirm conn passkey => p.authPasskeyConfirm conn passkey
  | .authCancel conn => (p.authCancel conn, [])
  | .pairingFailed conn => p.pairingFailed conn
  | .numCompReply accept => p.numCompReply accept

/-- The `bt_conn_ref` calls on a connection. -/
def refs (conn : Conn) (calls : List (PairingCall κ)) : Nat :=
  calls.countP fun
    | .connRef c => c == conn
    | _ => false

/-- The `bt_conn_unref` calls on a connection. -/
def unrefs (conn : Conn) (calls : List (PairingCall κ)) : Nat :=
  calls.countP fun
    | .connUnref c => c == conn
    | _ => false

/-- The requests of a connection in the queue. -/
def entries (conn : Conn) (p : Pairing κ) : Nat :=
  p.mitmQueue.items.countP fun d => d.conn == conn

/-- The call is no request, or there is room for it. -/
def FindsRoom (p : Pairing κ) : Handler κ → Prop
  | .authPasskeyConfirm _ _ => p.mitmQueue.items.length < hidsMaxClientCount
  | _ => True

/-! ## One call -/

theorem refs_append (conn : Conn) (calls calls' : List (PairingCall κ)) :
    refs conn (calls ++ calls') = refs conn calls + refs conn calls' := List.countP_append

theorem unrefs_append (conn : Conn) (calls calls' : List (PairingCall κ)) :
    unrefs conn (calls ++ calls') = unrefs conn calls + unrefs conn calls' := List.countP_append

section

variable (conn : Conn) (p : Pairing κ)

/-- The head of the queue takes its reference along. -/
theorem entries_eq_tail {d : PairingDataMitm κ} (hd : p.mitmQueue.items.head? = some d) :
    p.entries conn = (if d.conn = conn then 1 else 0)
      + p.mitmQueue.items.tail.countP fun d => d.conn == conn := by
  obtain ⟨ds, hds⟩ := List.head?_eq_some_iff.mp hd
  rw [entries, hds, List.countP_cons, List.tail_cons, Nat.add_comm]
  simp only [beq_iff_eq]

theorem refs_connRef (c : Conn) :
    refs conn [(.connRef c : PairingCall κ)] = if c = conn then 1 else 0 := by
  rw [refs, List.countP_singleton]
  simp only [beq_iff_eq]

theorem unrefs_connUnref (d : PairingDataMitm κ) :
    unrefs conn [(.connUnref d.conn : PairingCall κ)] = if d.conn = conn then 1 else 0 := by
  rw [unrefs, List.countP_singleton]
  simp only [beq_iff_eq]

/-- A call for which there is room moves the references and the requests alike. -/
theorem handle_balance {h : Handler κ} (hroom : p.FindsRoom h) :
    refs conn (p.handle h).2 + p.entries conn
      = unrefs conn (p.handle h).2 + (p.handle h).1.entries conn := by
  cases h with
  | pairingProcess =>
    have hcalls : refs conn p.pairingProcess.2 = 0 ∧ unrefs conn p.pairingProcess.2 = 0 := by
      rw [pairingProcess]
      dsimp only
      split <;> exact ⟨rfl, rfl⟩
    have hqueue : p.pairingProcess.1.entries conn = p.entries conn := by
      rw [entries, pairingProcess_mitmQueue, entries]
    show refs conn p.pairingProcess.2 + _ = unrefs conn p.pairingProcess.2 + _
    rw [hcalls.1, hcalls.2]
    exact congrArg (0 + ·) hqueue.symm
  | authPasskeyConfirm c passkey =>
    have hitems := (p.authPasskeyConfirm_items c passkey).trans (if_pos hroom)
    show refs conn [.connRef c] + p.entries conn
      = 0 + (p.authPasskeyConfirm c passkey).1.entries conn
    rw [entries, entries, hitems, List.countP_append, refs_connRef, List.countP_singleton,
      Nat.zero_add, Nat.add_comm]
    simp only [beq_iff_eq]
  | authCancel c => rfl
  | pairingFailed c =>
    show refs conn (p.pairingFailed c).2 + _ = unrefs conn (p.pairingFailed c).2
      + (p.pairingFailed c).1.mitmQueue.items.countP _
    rw [pairingFailed_items]
    cases hhead : p.mitmQueue.items.head? with
    | none =>
      have hcalls : (p.pairingFailed c).2 = [] := by rw [pairingFailed, MsgQueue.peek, hhead]
      rw [hcalls]
      rfl
    | some d =>
      by_cases hd : d.conn = c
      · have hcalls : (p.pairingFailed c).2 = [.connUnref d.conn] := by
          rw [pairingFailed, MsgQueue.peek, hhead]
          exact congrArg Prod.snd (if_pos hd)
        rw [hcalls, unrefs_connUnref, p.entries_eq_tail conn hhead, Option.map_some,
          if_pos (congrArg some hd)]
        exact Nat.zero_add _
      · -- the head is another connection's
        have hcalls : (p.pairingFailed c).2 = [] := by
          rw [pairingFailed, MsgQueue.peek, hhead]
          exact congrArg Prod.snd (if_neg hd)
        rw [hcalls, Option.map_some, if_neg fun h => hd (Option.some.inj h)]
        rfl
  | numCompReply accept =>
    show refs conn (p.numCompReply accept).2 + _ = unrefs conn (p.numCompReply accept).2
      + (p.numCompReply accept).1.mitmQueue.items.countP _
    rw [numCompReply_items, numCompReply_calls]
    cases hhead : p.mitmQueue.items.head? with
    | none =>
      obtain hnil := List.head?_eq_none_iff.mp hhead
      rw [entries, hnil]
      rfl
    | some d =>
      have hcalls : ∀ reply : PairingCall κ, reply = .authPasskeyConfirm d ∨ reply = .authCancel d →
          refs conn [reply, .connUnref d.conn] = 0 ∧
            unrefs conn [reply, .connUnref d.conn] = if d.conn = conn then 1 else 0 := by
        rintro _ (rfl | rfl) <;> exact ⟨rfl, unrefs_connUnref conn d⟩
      obtain ⟨hrefs, hunrefs⟩ := hcalls
        (if accept then .authPasskeyConfirm d else .authCancel d) (by cases accept <;> simp)
      rw [Option.elim_some, hrefs, hunrefs, p.entries_eq_tail conn hhead, Nat.zero_add]

end

end Pairing

/-! ## Runs -/

/-- The functions that use `mitm_queue`, called in any order, with the stack calls they
have made. -/
def handlers (κ : Type u) : Machine (Pairing κ × List (PairingCall κ)) (Pairing.Handler κ) :=
  Machine.recording ⟨.empty, fun p h => some (p.handle h).1⟩ []
    fun calls p h => calls ++ (p.handle h).2

/-- For every connection, the references taken and not given back are its requests in the
queue. -/
def RefsBalanced (s : Pairing κ × List (PairingCall κ)) : Prop :=
  ∀ conn, (Pairing.refs conn s.2 : Int) - Pairing.unrefs conn s.2 = s.1.entries conn

/-- **Reference accounting**: the references to every connection are balanced exactly on the
runs in which no passkey request finds the queue full. -/
theorem references_balanced_iff (hs : List (Pairing.Handler κ)) :
    (handlers κ).Always RefsBalanced hs ↔
      (handlers κ).Along (fun s h _ => s.1.FindsRoom h) hs := by
  refine Machine.recording_always_iff (fun _ => rfl) ?_
  rintro ⟨p, calls⟩ h p' hbal hstep
  obtain rfl := Option.some.inj hstep
  constructor
  · intro hnext
    cases h with
    | authPasskeyConfirm conn passkey =>
      by_contra hfull
      -- the reference is taken, and the queue is what it was
      have hitems := (p.authPasskeyConfirm_items conn passkey).trans (if_neg hfull)
      have hentries : (p.authPasskeyConfirm conn passkey).1.entries conn = p.entries conn :=
        congrArg (List.countP _) hitems
      have hafter : (Pairing.refs conn (calls ++ [.connRef conn]) : Int)
          - Pairing.unrefs conn (calls ++ [.connRef conn])
          = (p.authPasskeyConfirm conn passkey).1.entries conn := hnext conn
      have href : Pairing.refs conn ([.connRef conn] : List (PairingCall κ)) = 1 :=
        (Pairing.refs_connRef conn conn).trans (if_pos rfl)
      have hunref : Pairing.unrefs conn ([.connRef conn] : List (PairingCall κ)) = 0 := rfl
      have hbefore := hbal conn
      rw [Pairing.refs_append, Pairing.unrefs_append, href, hunref, hentries] at hafter
      dsimp only at hbefore
      omega
    | _ => trivial
  · intro hroom conn
    have hbefore := hbal conn
    have hstep := p.handle_balance conn hroom
    show (Pairing.refs conn (calls ++ (p.handle h).2) : Int)
      - Pairing.unrefs conn (calls ++ (p.handle h).2) = (p.handle h).1.entries conn
    rw [Pairing.refs_append, Pairing.unrefs_append]
    dsimp only at hbefore
    omega

/-- Connection 2 asks again while its first request still waits behind that of
connection 1: two requests in the queue, three references. -/
theorem reference_lost_on_full_queue :
    let hs : List (Pairing.Handler Nat) :=
      [.authPasskeyConfirm 1 111111, .authPasskeyConfirm 2 222222, .pairingFailed 2,
        .authPasskeyConfirm 2 333333]
    ¬(handlers Nat).Always RefsBalanced hs ∧
    ∃ s, (handlers Nat).run hs = some s ∧ Pairing.refs 2 s.2 = 2 ∧ Pairing.unrefs 2 s.2 = 0 ∧
      s.1.entries 2 = 1 := by
  refine ⟨?_, _, rfl, by decide⟩
  intro hall
  have hlast := hall.last (t := _) rfl 2
  revert hlast
  decide

/-! ## Runs of the firmware -/

namespace Firmware

variable (sendErr : Nat → Int)

/-- The function that an event calls on the queue. -/
def handler (fw : Firmware κ) : Event κ → Option (Pairing.Handler κ)
  | .passkeyConfirm conn passkey => some (.authPasskeyConfirm conn passkey)
  | .authCancel conn => some (.authCancel conn)
  | .pairingFailed conn => some (.pairingFailed conn)
  | .pairingWork => some .pairingProcess
  | .turn pins => (fw.answer pins).map .numCompReply
  | _ => none

/-- An event does to the queue what that function does, and makes its stack calls. -/
theorem step_handler {fw fw' : Firmware κ} {e : Event κ} (h : fw.step sendErr e = some fw') :
    (fw'.pairing, fw.calls sendErr e)
      = ((fw.handler e).map fw.pairing.handle).getD (fw.pairing, []) := by
  refine Prod.ext ((stepped h).pairing.trans ?_) ?_
  · cases e with
    | turn pins =>
      rw [nextPairing, handler]
      cases fw.answer pins <;> rfl
    | _ => rfl
  · cases e with
    | turn pins =>
      rw [calls_turn, handler, replyCalls]
      cases fw.answer pins <;> rfl
    | pairingWork =>
      rw [calls, react, if_pos (pairingWork_of_step h).1]
      rfl
    | notified data =>
      rw [calls, react]
      cases fw.kbds.notifyProcess data <;> rfl
    | readWork =>
      rw [calls, react]
      split <;> rfl
    | _ => rfl

/-- The firmware, with the stack calls of the pairing handlers on the side. -/
def calling (κ : Type u) (sendErr : Nat → Int) :
    Machine (Firmware κ × List (PairingCall κ)) (Event κ) :=
  (firmware κ sendErr).recording [] fun calls fw e => calls ++ fw.calls sendErr e

/-- Every run of the firmware is a run of the functions that use `mitm_queue`. -/
theorem run_handlers {st : Firmware κ × List (PairingCall κ)} {es : List (Event κ)}
    (hrun : (calling κ sendErr).run es = some st) :
    (handlers κ).run ((calling κ sendErr).emitted (fun s e => (s.1.handler e).toList)
      (calling κ sendErr).init es) = some (st.1.pairing, st.2) := by
  refine Machine.runFrom_emitted (f := fun s => (s.1.pairing, s.2)) ?_ hrun
  rintro ⟨fw, calls⟩ e ⟨fw', calls'⟩ hstep
  obtain ⟨hfw, rfl⟩ := Machine.recording_step.mp hstep
  have heq := step_handler sendErr hfw
  obtain ⟨hpairing, hcalls⟩ := Prod.mk.inj heq
  dsimp only at hpairing hcalls ⊢
  rw [hpairing, hcalls]
  cases fw.handler e with
  | none => simp
  | some h => rfl

end Firmware

end BleKeyboard
