import BleKeyboard.Host.References

/-!
# Passkey requests are served in the order of their arrival

`mitm_queue` is a FIFO with two ways out: an answer takes the head, whoever it was meant for,
and `pairing_failed` takes the head if it is of its own connection. `pairing_process` shows the
head and leaves it.

`requests_served_in_order`: in every run the requests that have come in are, in order, those that
have left and those that still wait; the answers go to some of those that have left, in their
order and so to none twice, each that has left has given its connection back, and a request is
shown or answered only while it is in front.
-/

namespace BleKeyboard

open Base

universe u

variable {κ : Type u}

namespace Pairing

/-- The requests that have been accepted or rejected. -/
def answered (calls : List (PairingCall κ)) : List (PairingDataMitm κ) :=
  calls.filterMap fun
    | .authPasskeyConfirm d => some d
    | .authCancel d => some d
    | _ => none

/-- The connections that have been given back. -/
def givenBack (calls : List (PairingCall κ)) : List Conn :=
  calls.filterMap fun
    | .connUnref c => some c
    | _ => none

/-- The requests that are shown or answered, each with the number of those that have left the line
by then, with their connections given back. -/
def served : Nat → List (PairingCall κ) → List (Nat × PairingDataMitm κ)
  | _, [] => []
  | n, .display d :: calls | n, .authPasskeyConfirm d :: calls | n, .authCancel d :: calls =>
    (n, d) :: served n calls
  | n, .connUnref _ :: calls => served (n + 1) calls
  | n, .connRef _ :: calls => served n calls

theorem answered_append (calls calls' : List (PairingCall κ)) :
    answered (calls ++ calls') = answered calls ++ answered calls' := List.filterMap_append

theorem givenBack_append (calls calls' : List (PairingCall κ)) :
    givenBack (calls ++ calls') = givenBack calls ++ givenBack calls' := List.filterMap_append

theorem served_append (n : Nat) (calls calls' : List (PairingCall κ)) :
    served n (calls ++ calls')
      = served n calls ++ served (n + (givenBack calls).length) calls' := by
  induction calls generalizing n with
  | nil => rfl
  | cons call calls ih =>
    cases call with
    | connUnref c =>
      have hback : givenBack (.connUnref c :: calls) = c :: givenBack calls := rfl
      rw [hback, List.length_cons, ← Nat.add_assoc, Nat.add_right_comm]
      exact ih (n + 1)
    | connRef c => exact ih n
    | display d | authPasskeyConfirm d | authCancel d => exact congrArg ((n, d) :: ·) (ih n)

/-- The request that a call puts into the queue. -/
def joins (p : Pairing κ) : Handler κ → List (PairingDataMitm κ)
  | .authPasskeyConfirm conn passkey =>
    if p.mitmQueue.items.length < hidsMaxClientCount then [⟨conn, passkey⟩] else []
  | _ => []

/-- A line of requests, and those that have left its front. -/
structure Line (arrived : List (PairingDataMitm κ)) (calls : List (PairingCall κ))
    (p : Pairing κ) (left : List (PairingDataMitm κ)) : Prop where
  inLine : arrived = left ++ p.mitmQueue.items
  answered : (answered calls).Sublist left
  givenBack : givenBack calls = left.map PairingDataMitm.conn
  /-- Who is shown or answered is the first of those that have not left by then. -/
  front : ∀ s ∈ served 0 calls, arrived[s.1]? = some s.2

/-! ## One call -/

/-- Who leaves the line in a call, and what is said about it. -/
structure Leaves (p : Pairing κ) (h : Handler κ) (leaving : List (PairingDataMitm κ)) :
    Prop where
  items : p.mitmQueue.items ++ p.joins h = leaving ++ (p.handle h).1.mitmQueue.items
  answered : (Pairing.answered (p.handle h).2).Sublist leaving
  givenBack : Pairing.givenBack (p.handle h).2 = leaving.map PairingDataMitm.conn
  /-- Only the head is shown or answered, and before it leaves. -/
  front : ∀ n, ∀ s ∈ served n (p.handle h).2, s.1 = n ∧ p.mitmQueue.items.head? = some s.2

theorem leaves_pairingProcess (p : Pairing κ) : p.Leaves .pairingProcess [] where
  items := by
    show p.mitmQueue.items ++ [] = [] ++ p.pairingProcess.1.mitmQueue.items
    rw [pairingProcess_mitmQueue, List.append_nil, List.nil_append]
  answered := by
    show (answered p.pairingProcess.2).Sublist []
    rw [pairingProcess]
    dsimp only
    split <;> exact List.nil_sublist _
  givenBack := by
    show givenBack p.pairingProcess.2 = []
    rw [pairingProcess]
    dsimp only
    split <;> rfl
  front := by
    intro n s hs
    have hs : s ∈ served n p.pairingProcess.2 := hs
    rw [pairingProcess, MsgQueue.peek] at hs
    dsimp only at hs
    cases hhead : p.mitmQueue.items.head? with
    | none =>
      rw [hhead] at hs
      cases hs
    | some d =>
      rw [hhead] at hs
      obtain rfl := List.mem_singleton.mp hs
      exact ⟨rfl, rfl⟩

theorem leaves_authPasskeyConfirm (conn : Conn) (passkey : κ) (p : Pairing κ) :
    p.Leaves (.authPasskeyConfirm conn passkey) [] where
  items := by
    show p.mitmQueue.items ++ p.joins _
      = [] ++ (p.authPasskeyConfirm conn passkey).1.mitmQueue.items
    rw [authPasskeyConfirm_items, joins, List.nil_append]
    split
    · rfl
    · exact List.append_nil _
  answered := List.nil_sublist _
  givenBack := rfl
  front := nofun

/-- A failure takes the head if it is of its connection. -/
theorem leaves_pairingFailed (conn : Conn) (p : Pairing κ) :
    ∃ leaving, p.Leaves (.pairingFailed conn) leaving := by
  cases hitems : p.mitmQueue.items with
  | nil =>
    have hcalls : p.pairingFailed conn = (p, []) := by
      rw [pairingFailed, MsgQueue.peek, hitems]
      rfl
    refine ⟨[], ?_, ?_, ?_, ?_⟩ <;> simp only [handle, hcalls]
    · exact List.append_nil _
    · exact List.nil_sublist _
    · rfl
    · exact fun _ _ hs => absurd hs List.not_mem_nil
  | cons d ds =>
    by_cases hd : d.conn = conn
    · have hcalls : p.pairingFailed conn
          = ({ p with mitmQueue := p.mitmQueue.drop }, [.connUnref d.conn]) := by
        rw [pairingFailed, MsgQueue.peek, hitems]
        exact if_pos hd
      refine ⟨[d], ?_, ?_, ?_, ?_⟩ <;> simp only [handle, hcalls]
      · rw [MsgQueue.drop_items, hitems]
        exact List.append_nil _
      · exact List.nil_sublist _
      · rfl
      · exact fun _ _ hs => absurd hs List.not_mem_nil
    · have hcalls : p.pairingFailed conn = (p, []) := by
        rw [pairingFailed, MsgQueue.peek, hitems]
        exact if_neg hd
      refine ⟨[], ?_, ?_, ?_, ?_⟩ <;> simp only [handle, hcalls]
      · exact List.append_nil _
      · exact List.nil_sublist _
      · rfl
      · exact fun _ _ hs => absurd hs List.not_mem_nil

/-- An answer takes the head. -/
theorem leaves_numCompReply (accept : Bool) (p : Pairing κ) :
    p.Leaves (.numCompReply accept) p.mitmQueue.items.head?.toList := by
  have hcalls := p.numCompReply_calls accept
  refine ⟨?_, ?_, ?_, ?_⟩ <;> simp only [handle, numCompReply_items, hcalls]
  · show p.mitmQueue.items ++ [] = _
    cases p.mitmQueue.items <;> simp
  · cases p.mitmQueue.items.head? with
    | none => exact .refl _
    | some d => cases accept <;> exact .refl _
  · cases p.mitmQueue.items.head? with
    | none => rfl
    | some d => cases accept <;> rfl
  · intro n s hs
    cases hhead : p.mitmQueue.items.head? with
    | none =>
      rw [hhead] at hs
      cases hs
    | some d =>
      have hone : s ∈ [(n, d)] := by
        rw [hhead] at hs
        cases accept <;> exact hs
      obtain rfl := List.mem_singleton.mp hone
      exact ⟨rfl, rfl⟩

/-- **One call**: one request leaves at most, from the front. -/
theorem leaves (p : Pairing κ) (h : Handler κ) : ∃ leaving, p.Leaves h leaving := by
  cases h with
  | pairingProcess => exact ⟨[], p.leaves_pairingProcess⟩
  | authPasskeyConfirm conn passkey => exact ⟨[], p.leaves_authPasskeyConfirm conn passkey⟩
  | authCancel conn =>
    exact ⟨[], List.append_nil _, List.nil_sublist _, rfl, nofun⟩
  | pairingFailed conn => exact p.leaves_pairingFailed conn
  | numCompReply accept => exact ⟨_, p.leaves_numCompReply accept⟩

/-- The line after a call. -/
theorem Line.step {arrived left : List (PairingDataMitm κ)} {calls : List (PairingCall κ)}
    {p : Pairing κ} (hline : Line arrived calls p left) (h : Handler κ) :
    ∃ left', Line (arrived ++ p.joins h) (calls ++ (p.handle h).2) (p.handle h).1 left' := by
  obtain ⟨leaving, hleaves⟩ := p.leaves h
  refine ⟨left ++ leaving, ?_, ?_, ?_, ?_⟩
  · rw [hline.inLine, List.append_assoc, hleaves.items, List.append_assoc]
  · rw [answered_append]
    exact hline.answered.append hleaves.answered
  · rw [givenBack_append, hline.givenBack, hleaves.givenBack, List.map_append]
  · intro s hs
    have hplace : arrived[s.1]? = some s.2 := by
      rw [served_append, hline.givenBack, List.length_map, Nat.zero_add] at hs
      rcases List.mem_append.mp hs with hs | hs
      · exact hline.front s hs
      · -- the head of the queue is the first in line that has not left
        obtain ⟨hn, hhead⟩ := hleaves.front _ s hs
        rw [hline.inLine, hn, List.getElem?_append_right (Nat.le_refl _), Nat.sub_self,
          ← List.head?_eq_getElem?, hhead]
    obtain ⟨hlt, -⟩ := List.getElem?_eq_some_iff.mp hplace
    rwa [List.getElem?_append_left hlt]

end Pairing

/-! ## Runs -/

/-- The request that an event puts into the queue. -/
def Firmware.joins (fw : Firmware κ) (e : Firmware.Event κ) : List (PairingDataMitm κ) :=
  (fw.handler e).elim [] fw.pairing.joins

/-- The firmware, with the requests that have come in and the stack calls of the pairing
handlers on the side. -/
def serving (κ : Type u) (sendErr : Nat → Int) :
    Machine (Firmware κ × List (PairingDataMitm κ) × List (PairingCall κ)) (Firmware.Event κ) :=
  (firmware κ sendErr).recording ([], []) fun record fw e =>
    (record.1 ++ fw.joins e, record.2 ++ fw.calls sendErr e)

/-- **First come, first served**: in every state of every run, the requests that have found room
are those that have left, followed by the queue; the answers went to some of those that have
left, in order; each of them has given its connection back, in order; and every request that was
shown or answered was the first, then, of those that had not left. -/
theorem requests_served_in_order (sendErr : Nat → Int) (es : List (Firmware.Event κ)) :
    (serving κ sendErr).Always (fun s => ∃ left,
      Pairing.Line s.2.1 s.2.2 s.1.pairing left) es := by
  refine Machine.alwaysFrom_of_step es ?_ ?_
  · exact ⟨[], rfl, List.nil_sublist _, rfl, nofun⟩
  · rintro ⟨fw, arrived, calls⟩ e ⟨fw', record'⟩ ⟨left, hline⟩ ht
    obtain ⟨hfw, hrecord⟩ := Machine.recording_step.mp ht
    obtain ⟨hpairing, hcalls⟩ := Prod.mk.inj (Firmware.step_handler sendErr hfw)
    obtain rfl := hrecord
    dsimp only at hpairing hcalls hline ⊢
    rw [hpairing, hcalls, Firmware.joins]
    cases fw.handler e with
    | none =>
      refine ⟨left, ?_⟩
      rw [Option.elim_none, List.append_nil]
      show Pairing.Line _ (calls ++ []) _ _
      rw [List.append_nil]
      exact hline
    | some h => exact hline.step h

end BleKeyboard
