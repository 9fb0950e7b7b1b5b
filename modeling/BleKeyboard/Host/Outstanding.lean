import BleKeyboard.Firmware.Passkeys
import BleKeyboard.Host.Displayed

/-!
# Requests that are still wanted

A passkey request is outstanding from `auth_passkey_confirm` until it is answered, or its
connection has a `pairing_failed`, an `auth_cancel` or a `disconnected`. `mitm_queue` can
be looked into at its head only: `pairing_failed` takes the head out if it belongs to the
connection, and the other two callbacks take nothing out.

`Requests` keeps the truth on the side. It numbers the requests in the order they are
made, and the passkeys carry the numbers through the code, which does not look at them
(`run_requesting`).

`queued_outstanding_iff`: all queued requests are outstanding, and all answers are for
outstanding requests and at most one for each, exactly on the runs in which a connection
that is done leaves no request of its own in the queue.
-/

namespace BleKeyboard

open Base

universe u

variable {κ : Type u}

/-- A passkey and the number of its request. -/
abbrev Numbered (κ : Type u) := κ × Nat

/-- The event, its request numbered `n` if it makes one. -/
def Firmware.Event.number (n : Nat) (e : Event κ) : Event (Numbered κ) :=
  e.mapPasskey fun passkey => (passkey, n)

/-- The request that a queue entry belongs to. -/
def PairingDataMitm.request (d : PairingDataMitm (Numbered κ)) : Nat × Conn :=
  (d.passkey.2, d.conn)

/-- The requests that `num_comp_reply` answers in a list of calls. -/
def answersIn (calls : List (PairingCall (Numbered κ))) : List (Nat × Conn) :=
  calls.filterMap fun
    | .authPasskeyConfirm d => some d.request
    | .authCancel d => some d.request
    | _ => none

/-- How many requests have been made, which of them are outstanding, which have been
answered, and which were answered when they were not outstanding any more. -/
structure Requests where
  made : Nat
  outstanding : List (Nat × Conn)
  answered : List (Nat × Conn)
  stale : List (Nat × Conn)

namespace Requests

/-- No request yet. -/
def zero : Requests := ⟨0, [], [], []⟩

/-- A new request. -/
def make (conn : Conn) (r : Requests) : Requests :=
  { r with made := r.made + 1, outstanding := (r.made, conn) :: r.outstanding }

/-- The requests of a connection are not outstanding any more. -/
def done (conn : Conn) (r : Requests) : Requests :=
  { r with outstanding := r.outstanding.filter fun q => q.2 ≠ conn }

/-- One answer. -/
def answer (r : Requests) (q : Nat × Conn) : Requests :=
  { r with
    outstanding := r.outstanding.filter (· ≠ q)
    answered := q :: r.answered
    stale := if q ∈ r.outstanding then r.stale else q :: r.stale }

/-- The requests after an event. -/
def next (sendErr : Nat → Int) (r : Requests) (fw : Firmware (Numbered κ)) :
    Firmware.Event κ → Requests
  | .passkeyConfirm conn _ => r.make conn
  | .authCancel conn | .pairingFailed conn | .disconnected conn _ _ => r.done conn
  | .turn pins => (answersIn (fw.calls sendErr (.turn pins))).foldl answer r
  | _ => r

/-- Every queued request is outstanding, every answer was for an outstanding request,
and no request was answered twice. -/
structure Live (r : Requests) (queue : List (PairingDataMitm (Numbered κ))) : Prop where
  queued : ∀ d ∈ queue, d.request ∈ r.outstanding
  noneStale : r.stale = []
  once : r.answered.Nodup

instance (r : Requests) (queue : List (PairingDataMitm (Numbered κ))) : Decidable (r.Live queue) :=
  decidable_of_iff ((∀ d ∈ queue, d.request ∈ r.outstanding) ∧ r.stale = [] ∧ r.answered.Nodup)
    ⟨fun h => ⟨h.1, h.2.1, h.2.2⟩, fun h => ⟨h.queued, h.noneStale, h.once⟩⟩

/-- Requests are queued once, and not any more when they have been answered. -/
structure Numbering (r : Requests) (queue : List (PairingDataMitm (Numbered κ))) : Prop where
  distinct : (queue.map PairingDataMitm.request).Nodup
  queuedBelow : ∀ d ∈ queue, d.request.1 < r.made
  answeredBelow : ∀ q ∈ r.answered, q.1 < r.made
  unanswered : ∀ d ∈ queue, d.request ∉ r.answered

/-! ### Operations on the queue and the requests -/

section

variable {r : Requests} {queue queue' : List (PairingDataMitm (Numbered κ))}

/-- What leaves the queue without an answer changes nothing about the numbers. -/
theorem Numbering.sublist (hn : r.Numbering queue) (hsub : queue'.Sublist queue) :
    r.Numbering queue' where
  distinct := hn.distinct.sublist (hsub.map _)
  queuedBelow d hd := hn.queuedBelow d (hsub.subset hd)
  answeredBelow := hn.answeredBelow
  unanswered d hd := hn.unanswered d (hsub.subset hd)

theorem Numbering.done (hn : r.Numbering queue) (conn : Conn) : (r.done conn).Numbering queue :=
  ⟨hn.distinct, hn.queuedBelow, hn.answeredBelow, hn.unanswered⟩

/-- A new request has a new number, whether it finds room in the queue or not. -/
theorem Numbering.make (hn : r.Numbering queue) (conn : Conn) (passkey : κ) :
    (r.make conn).Numbering (queue ++ [⟨conn, passkey, r.made⟩]) where
  distinct := by
    rw [List.map_append]
    refine hn.distinct.append (List.nodup_singleton _) ?_
    intro q hq hnew
    obtain ⟨d, hd, rfl⟩ := List.mem_map.mp hq
    have hnumber : d.request.1 = r.made := congrArg Prod.fst (List.mem_singleton.mp hnew)
    exact absurd (hn.queuedBelow d hd) (by omega)
  queuedBelow := by
    intro d hd
    rcases List.mem_append.mp hd with hold | hnew
    · exact Nat.lt_succ_of_lt (hn.queuedBelow d hold)
    · rw [List.mem_singleton.mp hnew]
      exact Nat.lt_succ_self _
  answeredBelow q hq := Nat.lt_succ_of_lt (hn.answeredBelow q hq)
  unanswered := by
    intro d hd hanswered
    rcases List.mem_append.mp hd with hold | hnew
    · exact hn.unanswered d hold hanswered
    · rw [List.mem_singleton.mp hnew] at hanswered
      exact Nat.lt_irrefl _ (hn.answeredBelow _ hanswered)

theorem Numbering.answer {d : PairingDataMitm (Numbered κ)} (hn : r.Numbering (d :: queue)) :
    (r.answer d.request).Numbering queue where
  distinct := (List.nodup_cons.mp hn.distinct).2
  queuedBelow c hc := hn.queuedBelow c (List.mem_cons_of_mem _ hc)
  answeredBelow := by
    intro q hq
    rcases List.mem_cons.mp hq with rfl | hold
    · exact hn.queuedBelow d List.mem_cons_self
    · exact hn.answeredBelow q hold
  unanswered := by
    intro c hc hanswered
    rcases List.mem_cons.mp hanswered with heq | hold
    · exact (List.nodup_cons.mp hn.distinct).1 (heq ▸ List.mem_map_of_mem hc)
    · exact hn.unanswered c (List.mem_cons_of_mem _ hc) hold

theorem Live.make (hs : r.Live queue) (conn : Conn) (passkey : κ) :
    (r.make conn).Live (queue ++ [⟨conn, passkey, r.made⟩]) where
  queued := by
    intro d hd
    rcases List.mem_append.mp hd with hold | hnew
    · exact List.mem_cons_of_mem _ (hs.queued d hold)
    · rw [List.mem_singleton.mp hnew]
      exact List.mem_cons_self
  noneStale := hs.noneStale
  once := hs.once

theorem Live.sublist (hs : r.Live queue) (hsub : queue'.Sublist queue) : r.Live queue' :=
  ⟨fun d hd => hs.queued d (hsub.subset hd), hs.noneStale, hs.once⟩

/-- The head is answered: it was outstanding and had not been answered, and the others
are different requests. -/
theorem Live.answer {d : PairingDataMitm (Numbered κ)} (hs : r.Live (d :: queue))
    (hn : r.Numbering (d :: queue)) : (r.answer d.request).Live queue where
  queued := by
    intro c hc
    refine List.mem_filter.mpr ⟨hs.queued c (List.mem_cons_of_mem _ hc), decide_eq_true ?_⟩
    rintro heq
    exact (List.nodup_cons.mp hn.distinct).1 (heq ▸ List.mem_map_of_mem hc)
  noneStale := (if_pos (hs.queued d List.mem_cons_self)).trans hs.noneStale
  once := List.nodup_cons.mpr ⟨hn.unanswered d List.mem_cons_self, hs.once⟩

/-- A connection is done: what stays in the queue must not be its own. -/
theorem Live.done_iff (hs : r.Live queue) (hsub : queue'.Sublist queue) (conn : Conn) :
    (r.done conn).Live queue' ↔ ∀ d ∈ queue', d.conn ≠ conn := by
  constructor
  · intro h d hd
    exact of_decide_eq_true (List.mem_filter.mp (h.queued d hd)).2
  · intro h
    refine ⟨?_, hs.noneStale, hs.once⟩
    intro d hd
    exact List.mem_filter.mpr ⟨hs.queued d (hsub.subset hd), decide_eq_true (h d hd)⟩

end

end Requests

namespace Firmware

/-- If the event ends the requests of a connection, none of these stays in the queue. -/
def LeavesNone (fw : Firmware (Numbered κ)) : Event κ → Prop
  | .pairingFailed conn => ∀ d ∈ fw.requests.tail, d.conn ≠ conn
  | .authCancel conn | .disconnected conn _ _ => ∀ d ∈ fw.requests, d.conn ≠ conn
  | _ => True

end Firmware

/-- The firmware with numbered requests, and the truth about them on the side. -/
def requesting (κ : Type u) (sendErr : Nat → Int) :
    Machine (Firmware (Numbered κ) × Requests) (Firmware.Event κ) where
  init := (.init, .zero)
  step s e := (s.1.step sendErr (e.number s.2.made)).map fun fw => (fw, s.2.next sendErr s.1 e)

/-- The numbers change nothing about what the firmware does. -/
theorem run_requesting (sendErr : Nat → Int) (es : List (Firmware.Event κ)) :
    ((requesting κ sendErr).run es).map (fun s => s.1.mapPasskeys Prod.fst)
      = (firmware κ sendErr).run es := by
  have hproj := Machine.runFrom_map (M := requesting κ sendErr) (N := firmware κ sendErr)
    (f := fun s => s.1.mapPasskeys Prod.fst) (g := id) (fun s e => ?_) (requesting κ sendErr).init es
  · rw [List.map_id] at hproj
    exact hproj
  · have hevent : (e.number s.2.made).mapPasskey Prod.fst = e := by cases e <;> rfl
    have hstep := Firmware.step_mapPasskeys Prod.fst sendErr s.1 (e.number s.2.made)
    rw [hevent] at hstep
    refine Eq.trans ?_ hstep
    show ((s.1.step sendErr (e.number s.2.made)).map fun fw =>
      (fw, s.2.next sendErr s.1 e)).map _ = _
    rw [Option.map_map]
    rfl

theorem requesting_step {sendErr : Nat → Int} {s t : Firmware (Numbered κ) × Requests}
    {e : Firmware.Event κ} (ht : (requesting κ sendErr).step s e = some t) :
    Firmware.Stepped sendErr s.1 (e.number s.2.made) t.1 ∧ t.2 = s.2.next sendErr s.1 e := by
  obtain ⟨fw, hstep, rfl⟩ := Option.map_eq_some_iff.mp ht
  exact ⟨Firmware.stepped hstep, rfl⟩

/-- A turn answers the head, or nothing. -/
theorem answersIn_turn (sendErr : Nat → Int) (fw : Firmware (Numbered κ)) (pins : Pins) :
    answersIn (fw.calls sendErr (.turn pins)) =
      if (fw.answer pins).isSome then (fw.requests.head?.map PairingDataMitm.request).toList
      else [] := by
  rw [Firmware.calls_turn, Firmware.replyCalls]
  cases fw.answer pins with
  | none => rfl
  | some accept =>
    rw [Option.elim_some, Pairing.numCompReply_calls]
    show answersIn (fw.requests.head?.elim [] _) = _
    cases fw.requests.head? with
    | none => rfl
    | some d => cases accept <;> rfl

namespace Requests

variable {sendErr : Nat → Int} {r : Requests} {fw : Firmware (Numbered κ)}

/-- A turn answers the head and takes it out, or changes nothing. -/
theorem turn_cases (sendErr : Nat → Int) (r : Requests) (fw : Firmware (Numbered κ))
    (pins : Pins) :
    (∃ d, fw.requests = d :: fw.nextRequests (.turn pins) ∧
      r.next sendErr fw (.turn pins) = r.answer d.request) ∨
    (fw.nextRequests (.turn pins) = fw.requests ∧ r.next sendErr fw (.turn pins) = r) := by
  rw [next, answersIn_turn, Firmware.nextRequests]
  by_cases hans : (fw.answer pins).isSome = true
  · rw [if_pos hans, if_pos hans]
    cases hqueue : fw.requests with
    | nil => exact .inr ⟨rfl, rfl⟩
    | cons d ds => exact .inl ⟨d, rfl, rfl⟩
  · rw [if_neg hans, if_neg hans]
    exact .inr ⟨rfl, rfl⟩

/-- The numbers stay in order. -/
theorem Numbering.next (hn : r.Numbering fw.requests) (e : Firmware.Event κ) :
    (r.next sendErr fw e).Numbering (fw.nextRequests (e.number r.made)) := by
  cases e with
  | passkeyConfirm conn passkey =>
    show (r.make conn).Numbering (if _ then _ else _)
    split
    · exact hn.make conn passkey
    · exact (hn.make conn passkey).sublist (List.sublist_append_left _ _)
  | pairingFailed conn =>
    show (r.done conn).Numbering (if _ then _ else _)
    split
    · exact (hn.sublist (List.tail_sublist _)).done conn
    · exact hn.done conn
  | authCancel conn => exact hn.done conn
  | disconnected conn role advErr => exact hn.done conn
  | turn pins =>
    show (r.next sendErr fw (.turn pins)).Numbering (fw.nextRequests (.turn pins))
    rcases turn_cases sendErr r fw pins with ⟨d, hqueue, hnext⟩ | ⟨hqueue, hnext⟩
    · rw [hqueue] at hn
      rw [hnext]
      exact hn.answer
    · rw [hqueue, hnext]
      exact hn
  | _ => exact hn

/-- **Exactness of one event**. -/
theorem live_next_iff (hs : r.Live fw.requests) (hn : r.Numbering fw.requests)
    (e : Firmware.Event κ) :
    (r.next sendErr fw e).Live (fw.nextRequests (e.number r.made)) ↔ fw.LeavesNone e := by
  cases e with
  | passkeyConfirm conn passkey =>
    refine iff_of_true ?_ trivial
    show (r.make conn).Live (if _ then _ else _)
    split
    · exact hs.make conn passkey
    · exact (hs.make conn passkey).sublist (List.sublist_append_left _ _)
  | pairingFailed conn =>
    show (r.done conn).Live (if fw.TakesHead conn then fw.requests.tail else fw.requests) ↔
      ∀ d ∈ fw.requests.tail, d.conn ≠ conn
    split
    · exact hs.done_iff (List.tail_sublist _) conn
    · next hhead =>
      -- the head belongs to another connection, and stays
      rw [hs.done_iff (List.Sublist.refl _)]
      rw [Firmware.TakesHead] at hhead
      cases hqueue : fw.requests with
      | nil => simp
      | cons d ds =>
        have hd : d.conn ≠ conn := by
          rw [hqueue] at hhead
          simpa using hhead
        simp [hd]
  | authCancel conn => exact hs.done_iff (List.Sublist.refl _) conn
  | disconnected conn role advErr => exact hs.done_iff (List.Sublist.refl _) conn
  | turn pins =>
    refine iff_of_true ?_ trivial
    show (r.next sendErr fw (.turn pins)).Live (fw.nextRequests (.turn pins))
    rcases turn_cases sendErr r fw pins with ⟨d, hqueue, hnext⟩ | ⟨hqueue, hnext⟩
    · rw [hqueue] at hn hs
      rw [hnext]
      exact hs.answer hn
    · rw [hqueue, hnext]
      exact hs
  | _ => exact iff_of_true hs trivial

end Requests

/-- **Queued requests are outstanding**, and answers are for outstanding requests, at
most one for each, exactly on the runs in which no failure, cancellation or
disconnection of a link leaves one of its requests in the queue. -/
theorem queued_outstanding_iff (sendErr : Nat → Int) (es : List (Firmware.Event κ)) :
    (requesting κ sendErr).Always (fun s => s.2.Live s.1.requests) es ↔
      (requesting κ sendErr).Along (fun s e _ => s.1.LeavesNone e) es := by
  have hlive : Requests.zero.Live (Firmware.init : Firmware (Numbered κ)).requests := by
    refine ⟨?_, rfl, List.nodup_nil⟩
    intro d hd
    cases hd
  have hnumbers : Requests.zero.Numbering (Firmware.init : Firmware (Numbered κ)).requests := by
    refine ⟨List.nodup_nil, ?_, ?_, ?_⟩
    · intro d hd
      cases hd
    · intro q hq
      cases hq
    · intro d hd
      cases hd
  refine Machine.alwaysFrom_iff (J := fun s => s.2.Numbering s.1.requests) hnumbers hlive
    (fun s e t hn ht => ?_) fun s e t hn hs ht => ?_
  · obtain ⟨hstep, hnext⟩ := requesting_step ht
    rw [hnext, Firmware.requests_eq_next hstep]
    exact hn.next e
  · obtain ⟨hstep, hnext⟩ := requesting_step ht
    rw [hnext, Firmware.requests_eq_next hstep]
    exact Requests.live_next_iff hs hn e

/-- Two hosts ask, and the pairing of the second one fails while the first is at the
head. The user rejects the first, and the accept key confirms the failed one. -/
theorem failed_request_confirmed :
    let es : List (Firmware.Event Nat) :=
      [.connected 1 0 .peripheral 0, .connected 2 0 .peripheral 0, .passkeyConfirm 1 111111,
        .passkeyConfirm 2 222222, .pairingFailed 2,
        .turn (pinsOf 0x10), .turn (pinsOf 0x08)]
    ¬(requesting Nat fun _ => 0).Always (fun s => s.2.Live s.1.requests) es ∧
    ∃ s, (requesting Nat fun _ => 0).run es = some s ∧ s.2.answered = [(1, 2), (0, 1)] ∧
      s.2.stale = [(1, 2)] := by
  refine ⟨by decide +kernel, _, rfl, ?_⟩
  decide +kernel

end BleKeyboard
