import BleKeyboard.Base.Machine
import BleKeyboard.Firmware.LeftHalf

/-!
# The two halves, end to end

The left half and its client as two parties that exchange messages: CCC writes and
read requests one way, notifications and read responses the other way, each way in
order.

Notifications go out for changes only, once, and whatever `bt_gatt_notify` says; a
read response is one byte. So the two can drift apart. `halves_agree` says when they
do not: from a notified scan, or an answered read of a word the response can carry,
until the first scan that changes the word without notifying, or the first answered
read of a word that the response cuts off.
-/

namespace BleKeyboard

open Base

/-- A message to the left half. -/
inductive Request where
  | cccWrite (value : BitVec 16)
  | read
  deriving DecidableEq, Repr

/-- A message to the client. -/
inductive Message where
  | notification (data : List Byte)
  | readResponse (data : List Byte)
  deriving DecidableEq, Repr

/-- The client's callback for a message. -/
def Message.receive (kbds : KbdsClient) : Message → Option KbdsClient
  | .notification data => (kbds.notifyProcess (some data)).map Prod.fst
  | .readResponse data => some (kbds.readProcess 0 (some data)).1

/-- The two parties, and the messages on the way to each. -/
structure Halves where
  left : LeftHalf
  kbds : KbdsClient
  toLeft : List Request
  toClient : List Message

/-- What can happen next: a scan, a write of the CCC, a call of
`bt_kbds_read_keystates`, the arrival of a message. -/
inductive HalvesEvent where
  | scan (pins : Pins) (gattErr : Int)
  | writeCcc (value : BitVec 16)
  | readKeystates (gattErr : Int)
  | atLeft
  | atClient

namespace Halves

/-- One event; `none` if there is no message to arrive. -/
def step (s : Halves) : HalvesEvent → Option Halves
  | .scan pins gattErr =>
    let (left, data) := s.left.getKeystate pins gattErr
    some { s with left, toClient := s.toClient ++ (data.map Message.notification).toList }
  | .writeCcc value => some { s with toLeft := s.toLeft ++ [.cccWrite value] }
  | .readKeystates gattErr =>
    let (err, kbds, _) := s.kbds.readKeystates .readKeystatesCb gattErr
    some { s with kbds, toLeft := s.toLeft ++ if err = 0 then [.read] else [] }
  | .atLeft =>
    match s.toLeft with
    | [] => none
    | .cccWrite value :: toLeft => some { s with left := s.left.cccCfgChanged value, toLeft }
    | .read :: toLeft =>
      let (left, data) := s.left.readButton
      some { s with left, toLeft, toClient := s.toClient ++ [.readResponse data] }
  | .atClient =>
    match s.toClient with
    | [] => none
    | m :: toClient => (m.receive s.kbds).map fun kbds => { s with kbds, toClient }

/-- No message is in flight. -/
def Quiet (s : Halves) : Prop := s.toLeft = [] ∧ s.toClient = []

/-- The client has the word of the last scan. -/
def Agree (s : Halves) : Prop := s.kbds.keystates = s.left.appKeystate

instance (s : Halves) : Decidable s.Quiet := inferInstanceAs (Decidable (_ ∧ _))

instance (s : Halves) : Decidable s.Agree := inferInstanceAs (Decidable (_ = _))

/-- The first byte of a word, as a read response carries it. -/
def responseByte (w : Word) : Byte := w.extractLsb' 0 8

end Halves

/-- What `read_button` sends. -/
theorem LeftHalf.readButton_eq (s : LeftHalf) :
    s.readButton.1.appKeystate = s.appKeystate ∧
      s.readButton.2 = if s.buttonCb then [Halves.responseByte s.appKeystate] else [] := by
  rw [LeftHalf.readButton]
  split <;> exact ⟨rfl, rfl⟩

/-- Two facts about a run: the left half has scanned since the last CCC write reached
it; and the halves are in step. -/
structure InTouch where
  scanned : Bool
  inStep : Bool

namespace InTouch

/-- A scan that notifies brings the halves in step, and one that finds another word
without notifying takes them out of step. So does an answered read: a word up to
`BT_KBDS_VAL_MAX` arrives, and a longer word arrives cut off, unless its first byte is
above that and is dropped. -/
def next (t : InTouch) (s : Halves) : HalvesEvent → InTouch
  | .scan pins gattErr =>
    ⟨true, decide (s.left.Notifies pins gattErr) ||
      t.inStep && decide (readMatrix pins = s.left.appKeystate)⟩
  | .atLeft =>
    match s.toLeft with
    | .cccWrite _ :: _ => { t with scanned := false }
    | .read :: _ =>
      if s.left.buttonCb = false ∨
          btKbdsValMax < (Halves.responseByte s.left.appKeystate).setWidth 32 then t
      else { t with
        inStep := decide (s.left.appKeystate
          = (Halves.responseByte s.left.appKeystate).setWidth 32) }
    | [] => t
  | _ => t

end InTouch

/-- The two halves from the start, with what the run says about them on the side: the
client as `kbds`, and `buttonState` in the uninitialised variable. -/
def halves (buttonState : Word) (kbds : KbdsClient) : Machine (Halves × InTouch) HalvesEvent :=
  (Machine.mk (⟨.init buttonState, kbds, [], []⟩ : Halves) Halves.step).recording ⟨false, false⟩
    InTouch.next

/-! ## What is in flight will arrive -/

/-- The client once all messages on the way to it have arrived. -/
def settled (kbds : KbdsClient) (msgs : List Message) : KbdsClient :=
  msgs.foldl (fun kbds m => (m.receive kbds).getD kbds) kbds

/-- The message answers a read. -/
def Message.isResponse : Message → Bool
  | .notification _ => false
  | .readResponse _ => true

@[simp] theorem settled_cons (kbds : KbdsClient) (m : Message) (msgs : List Message) :
    settled kbds (m :: msgs) = settled ((m.receive kbds).getD kbds) msgs := rfl

theorem settled_append_singleton (kbds : KbdsClient) (msgs : List Message) (m : Message) :
    settled kbds (msgs ++ [m])
      = (m.receive (settled kbds msgs)).getD (settled kbds msgs) := by
  rw [settled, List.foldl_append]
  rfl

theorem receive_notification (kbds : KbdsClient) (w : Word) :
    (Message.notification (toBytesLE w)).receive kbds = some { kbds with keystates := w } := by
  rw [Message.receive, KbdsClient.notifyProcess_toBytesLE]
  rfl

/-- A notification never touches the read callback. -/
theorem readCb_of_notification {kbds kbds' : KbdsClient} {data : List Byte}
    (h : (Message.notification data).receive kbds = some kbds') : kbds'.readCb = kbds.readCb := by
  obtain ⟨⟨k, r⟩, hk, rfl⟩ := Option.map_eq_some_iff.mp h
  rw [KbdsClient.notifyProcess] at hk
  obtain ⟨w, -, hw⟩ := Option.bind_eq_some_iff.mp hk
  obtain ⟨rfl, -⟩ := Prod.mk.inj (Option.some.inj hw)
  rfl

/-- A read response of one byte stores it, if a read is under way and the byte is not
above `BT_KBDS_VAL_MAX`. -/
theorem keystates_of_response (kbds : KbdsClient) (b : Byte) :
    (kbds.readProcess 0 (some [b])).1.keystates =
      if kbds.readCb = none ∨ btKbdsValMax < b.setWidth 32 then kbds.keystates
      else b.setWidth 32 := by
  cases hcb : kbds.readCb with
  | none =>
    rw [KbdsClient.readProcess, hcb]
    rfl
  | some cb =>
    rw [KbdsClient.readProcess_keystates 0 (some [b]) kbds hcb]
    by_cases hmax : (b.setWidth 32 : Word) > btKbdsValMax
    · rw [readStored_of_gt 0 hmax, if_pos (.inr hmax), Option.getD_none]
    · rw [readStored_of_not_gt hmax, if_neg, Option.getD_some]
      rintro (h | h)
      · cases h
      · exact hmax h

theorem keystates_of_empty_response (kbds : KbdsClient) :
    (kbds.readProcess 0 (some [])).1.keystates = kbds.keystates := by
  rw [KbdsClient.readProcess]
  cases kbds.readCb <;> rfl

/-- Messages that answer no read keep the read callback, and their effect on the key
state does not depend on it. -/
theorem settled_of_no_response {msgs : List Message} (hno : ∀ m ∈ msgs, m.isResponse = false)
    (kbds kbds' : KbdsClient) (heq : kbds'.keystates = kbds.keystates) :
    (settled kbds' msgs).keystates = (settled kbds msgs).keystates ∧
      (settled kbds msgs).readCb = kbds.readCb := by
  induction msgs generalizing kbds kbds' with
  | nil => exact ⟨heq, rfl⟩
  | cons m msgs ih =>
    have hrest : ∀ x ∈ msgs, x.isResponse = false := fun x hx => hno x (List.mem_cons_of_mem _ hx)
    cases m with
    | readResponse data => exact absurd (hno _ List.mem_cons_self) (by simp [Message.isResponse])
    | notification data =>
      rw [settled_cons, settled_cons]
      have hload : ∀ k : KbdsClient, (Message.notification data).receive k
          = (loadWord (some data)).map fun w => { k with keystates := w } := by
        intro k
        rw [Message.receive, KbdsClient.notifyProcess]
        cases loadWord (some data) <;> rfl
      rw [hload, hload]
      cases loadWord (some data) with
      | none => exact ih hrest kbds kbds' heq
      | some w => exact ih hrest { kbds with keystates := w } { kbds' with keystates := w } rfl

/-- `bt_kbds_read_keystates` refuses and changes nothing, or no read is under way; then
it waits for the response exactly if it sends a request. -/
theorem readKeystates_cases (func : ReadCb) (gattErr : Int) (kbds : KbdsClient) :
    let r := kbds.readKeystates func gattErr
    (r.1 ≠ 0 ∧ r.2.1 = kbds) ∨
      (kbds.readCb = none ∧ r.2.1.keystates = kbds.keystates ∧
        (r.2.1.readCb = none → r.1 ≠ 0)) := by
  intro r
  by_cases hconn : kbds.conn = none
  · have hr : r = (-einval, kbds, []) := if_pos hconn
    rw [hr]
    exact .inl ⟨by simp [einval], rfl⟩
  · by_cases hcb : kbds.readCb ≠ none
    · have hr : r = (-ebusy, kbds, []) := (if_neg hconn).trans (if_pos hcb)
      rw [hr]
      exact .inl ⟨by simp [ebusy], rfl⟩
    · have hnone : kbds.readCb = none := not_not.mp hcb
      by_cases herr : gattErr ≠ 0
      · have hr : r = (gattErr, { kbds with readCb := none, readHandle := kbds.valHandle },
            [.read kbds.conn kbds.valHandle]) :=
          (if_neg hconn).trans ((if_neg hcb).trans (if_pos herr))
        rw [hr]
        exact .inr ⟨hnone, rfl, fun _ => herr⟩
      · have hr : r = (0, { kbds with readCb := some func, readHandle := kbds.valHandle },
            [.read kbds.conn kbds.valHandle]) :=
          (if_neg hconn).trans ((if_neg hcb).trans (if_neg herr))
        rw [hr]
        exact .inr ⟨hnone, rfl, fun h => by cases h⟩

/-! ## The invariant -/

namespace Halves

/-- The reads under way: requests and responses in flight. -/
def reads (s : Halves) : Nat :=
  s.toLeft.countP (· = .read) + s.toClient.countP Message.isResponse

end Halves

/-- There is at most one read under way, and then the client waits for it. While the
halves are in step, the messages in flight carry the word of the last scan. -/
structure HalvesInv (s : Halves × InTouch) : Prop where
  oneRead : s.1.reads ≤ 1
  readCb : s.1.kbds.readCb = none → s.1.reads = 0
  settles : s.2.inStep = true → (settled s.1.kbds s.1.toClient).keystates = s.1.left.appKeystate

namespace HalvesInv

variable {s : Halves × InTouch}

theorem scan (hs : HalvesInv s) (pins : Pins) (gattErr : Int) {t : Halves}
    (ht : s.1.step (.scan pins gattErr) = some t) :
    HalvesInv (t, s.2.next s.1 (.scan pins gattErr)) := by
  have hstep : t = { s.1 with
      left := (s.1.left.getKeystate pins gattErr).1
      toClient := s.1.toClient
        ++ ((s.1.left.getKeystate pins gattErr).2.map Message.notification).toList } :=
    (Option.some.inj ht).symm
  rw [LeftHalf.getKeystate_eq] at hstep
  by_cases hn : s.1.left.Notifies pins gattErr
  · -- the notification is the last message on its way
    rw [if_pos hn] at hstep
    subst hstep
    have hreads : Halves.reads { s.1 with
        left := { s.1.left with appKeystate := readMatrix pins, buttonState := readMatrix pins }
        toClient := s.1.toClient ++ [.notification (toBytesLE (readMatrix pins))] }
        = s.1.reads := by
      rw [Halves.reads, Halves.reads, List.countP_append]
      rfl
    refine ⟨hreads ▸ hs.oneRead, fun hcb => hreads.trans (hs.readCb hcb), ?_⟩
    intro _
    show (settled s.1.kbds (s.1.toClient ++ [.notification (toBytesLE (readMatrix pins))])).keystates
      = readMatrix pins
    rw [settled_append_singleton, receive_notification]
    rfl
  · -- nothing is sent; the halves stay in step if the word is the old one
    rw [if_neg hn] at hstep
    subst hstep
    have htoClient : s.1.toClient ++ ((none : Option (List Byte)).map Message.notification).toList
        = s.1.toClient := List.append_nil _
    rw [htoClient]
    refine ⟨hs.oneRead, hs.readCb, ?_⟩
    intro hin
    have hin : (decide (s.1.left.Notifies pins gattErr) ||
      s.2.inStep && decide (readMatrix pins = s.1.left.appKeystate)) = true := hin
    rw [decide_eq_false hn, Bool.false_or, Bool.and_eq_true, decide_eq_true_eq] at hin
    exact (hs.settles hin.1).trans hin.2.symm

theorem writeCcc (hs : HalvesInv s) (value : BitVec 16) {t : Halves}
    (ht : s.1.step (.writeCcc value) = some t) :
    HalvesInv (t, s.2.next s.1 (.writeCcc value)) := by
  obtain rfl := Option.some.inj ht
  have hreads : Halves.reads { s.1 with toLeft := s.1.toLeft ++ [.cccWrite value] }
      = s.1.reads := by
    rw [Halves.reads, Halves.reads, List.countP_append]
    rfl
  exact ⟨hreads ▸ hs.oneRead, fun hcb => hreads.trans (hs.readCb hcb), hs.settles⟩

/-- If all reads under way are requests still, no response is in flight. -/
theorem no_response (hreads : s.1.reads ≤ s.1.toLeft.countP (· = .read)) :
    ∀ m ∈ s.1.toClient, m.isResponse = false := by
  intro m hm
  have hcount : s.1.toClient.countP Message.isResponse = 0 := by
    rw [Halves.reads] at hreads
    omega
  exact Bool.eq_false_of_not_eq_true (List.countP_eq_zero.mp hcount m hm)

theorem readKeystates (hs : HalvesInv s) (gattErr : Int) {t : Halves}
    (ht : s.1.step (.readKeystates gattErr) = some t) :
    HalvesInv (t, s.2.next s.1 (.readKeystates gattErr)) := by
  have hcases := readKeystates_cases .readKeystatesCb gattErr s.1.kbds
  have hstep : t = { s.1 with
      kbds := (s.1.kbds.readKeystates .readKeystatesCb gattErr).2.1
      toLeft := s.1.toLeft ++ if (s.1.kbds.readKeystates .readKeystatesCb gattErr).1 = 0 then
        [.read] else [] } := (Option.some.inj ht).symm
  generalize s.1.kbds.readKeystates .readKeystatesCb gattErr = r at hcases hstep
  obtain ⟨err, kbds, reqs⟩ := r
  subst hstep
  rcases hcases with ⟨herr, hsame⟩ | ⟨hnone, hkey, hwait⟩
  · -- refused: no request goes out
    have hsent : s.1.toLeft ++ (if err = 0 then [Request.read] else []) = s.1.toLeft := by
      rw [if_neg herr, List.append_nil]
    obtain rfl : kbds = s.1.kbds := hsame
    rw [hsent]
    exact ⟨hs.oneRead, hs.readCb, hs.settles⟩
  · -- no read was under way, so the new callback meets notifications only
    have hzero := hs.readCb hnone
    have hreads : Halves.reads { s.1 with
        kbds, toLeft := s.1.toLeft ++ if err = 0 then [Request.read] else [] }
        = if err = 0 then 1 else 0 := by
      rw [Halves.reads] at hzero ⊢
      obtain ⟨hleft, hclient⟩ := Nat.add_eq_zero_iff.mp hzero
      rw [List.countP_append, hleft, hclient]
      split <;> rfl
    refine ⟨?_, ?_, ?_⟩
    · rw [hreads]
      split <;> decide
    · intro hcb
      rw [hreads, if_neg (hwait hcb)]
    · intro hin
      rw [← hs.settles hin]
      have hno := no_response (s := s) (hzero.trans_le (Nat.zero_le _))
      exact (settled_of_no_response hno s.1.kbds kbds hkey).1

/-- A read that is a request still is the only one under way, and the client waits for its
response. -/
theorem waits_of_read (hs : HalvesInv s) (hread : 0 < s.1.toLeft.countP (· = .read)) :
    (settled s.1.kbds s.1.toClient).readCb ≠ none := by
  have hone := hs.oneRead
  have hno : ∀ m ∈ s.1.toClient, m.isResponse = false := no_response (by omega)
  rw [(settled_of_no_response hno s.1.kbds s.1.kbds rfl).2]
  intro hcb
  have hzero := hs.readCb hcb
  rw [Halves.reads] at hzero
  omega

theorem atLeft_cccWrite (hs : HalvesInv s) {value : BitVec 16} {toLeft : List Request}
    (hq : s.1.toLeft = .cccWrite value :: toLeft) :
    HalvesInv ({ s.1 with left := s.1.left.cccCfgChanged value, toLeft },
      s.2.next s.1 .atLeft) := by
  have hreads : Halves.reads { s.1 with left := s.1.left.cccCfgChanged value, toLeft }
      = s.1.reads := by
    rw [Halves.reads, Halves.reads, hq, List.countP_cons]
    rfl
  have hnext : s.2.next s.1 .atLeft = { s.2 with scanned := false } := by
    rw [InTouch.next, hq]
  rw [hnext]
  exact ⟨hreads ▸ hs.oneRead, fun hcb => hreads.trans (hs.readCb hcb), hs.settles⟩

theorem atLeft_read (hs : HalvesInv s) {toLeft : List Request} (hq : s.1.toLeft = .read :: toLeft) :
    HalvesInv ({ s.1 with
        left := s.1.left.readButton.1, toLeft
        toClient := s.1.toClient ++ [.readResponse s.1.left.readButton.2] },
      s.2.next s.1 .atLeft) := by
  have hcount : s.1.toLeft.countP (· = .read) = toLeft.countP (· = .read) + 1 := by
    rw [hq, List.countP_cons]
    rfl
  have hreads : Halves.reads { s.1 with
      left := s.1.left.readButton.1, toLeft
      toClient := s.1.toClient ++ [.readResponse s.1.left.readButton.2] } = s.1.reads := by
    rw [Halves.reads, Halves.reads, hcount, List.countP_append]
    show toLeft.countP _ + (s.1.toClient.countP _ + 1)
      = toLeft.countP _ + 1 + s.1.toClient.countP _
    omega
  refine ⟨hreads ▸ hs.oneRead, fun hcb => hreads.trans (hs.readCb hcb), ?_⟩
  have hcb := hs.waits_of_read (hcount ▸ Nat.succ_pos _)
  obtain ⟨happ, hdata⟩ := s.1.left.readButton_eq
  intro hin
  show (settled s.1.kbds (s.1.toClient ++ [.readResponse s.1.left.readButton.2])).keystates
    = s.1.left.readButton.1.appKeystate
  rw [settled_append_singleton, happ]
  show ((settled s.1.kbds s.1.toClient).readProcess 0
    (some s.1.left.readButton.2)).1.keystates = _
  rw [hdata]
  rw [InTouch.next, hq] at hin
  simp only at hin
  by_cases hbutton : s.1.left.buttonCb = false
  · rw [if_pos (Or.inl hbutton)] at hin
    rw [hbutton, if_neg Bool.false_ne_true, keystates_of_empty_response]
    exact hs.settles hin
  · rw [if_pos (Bool.eq_true_of_not_eq_false hbutton), keystates_of_response]
    by_cases hmax : btKbdsValMax < (Halves.responseByte s.1.left.appKeystate).setWidth 32
    · rw [if_pos (Or.inr hmax)] at hin
      rw [if_pos (Or.inr hmax)]
      exact hs.settles hin
    · rw [if_neg (not_or.mpr ⟨hbutton, hmax⟩)] at hin
      rw [if_neg (not_or.mpr ⟨hcb, hmax⟩)]
      exact (of_decide_eq_true hin).symm

theorem atLeft (hs : HalvesInv s) {t : Halves} (ht : s.1.step .atLeft = some t) :
    HalvesInv (t, s.2.next s.1 .atLeft) := by
  rw [Halves.step] at ht
  cases hq : s.1.toLeft with
  | nil =>
    rw [hq] at ht
    cases ht
  | cons req toLeft =>
    rw [hq] at ht
    cases req with
    | cccWrite value =>
      obtain rfl := Option.some.inj ht
      exact hs.atLeft_cccWrite hq
    | read =>
      obtain rfl := Option.some.inj ht
      exact hs.atLeft_read hq

theorem atClient (hs : HalvesInv s) {t : Halves} (ht : s.1.step .atClient = some t) :
    HalvesInv (t, s.2.next s.1 .atClient) := by
  rw [Halves.step] at ht
  cases hq : s.1.toClient with
  | nil =>
    rw [hq] at ht
    cases ht
  | cons m toClient =>
    rw [hq] at ht
    obtain ⟨kbds, hkbds, hstep⟩ := Option.map_eq_some_iff.mp ht
    have hsettled : settled s.1.kbds s.1.toClient = settled kbds toClient := by
      rw [hq, settled_cons, hkbds]
      rfl
    have hone := hs.oneRead
    have hreads : t.reads + (if m.isResponse then 1 else 0) = s.1.reads := by
      rw [← hstep, Halves.reads, Halves.reads, hq, List.countP_cons, Nat.add_assoc]
    have htkbds : t.kbds = kbds := by rw [← hstep]
    refine ⟨show t.reads ≤ 1 by omega, ?_, ?_⟩
    · intro hcb
      show t.reads = 0
      rw [htkbds] at hcb
      cases m with
      | notification data =>
        rw [readCb_of_notification hkbds] at hcb
        have hzero := hs.readCb hcb
        omega
      | readResponse data =>
        -- this was the one response in flight
        rw [show (Message.readResponse data).isResponse = true from rfl, if_pos rfl] at hreads
        omega
    · intro hin
      rw [← hstep]
      show (settled kbds toClient).keystates = _
      rw [← hsettled]
      exact hs.settles hin

theorem step (hs : HalvesInv s) {e : HalvesEvent} {t : Halves} (ht : s.1.step e = some t) :
    HalvesInv (t, s.2.next s.1 e) := by
  cases e with
  | scan pins gattErr => exact hs.scan pins gattErr ht
  | writeCcc value => exact hs.writeCcc value ht
  | readKeystates gattErr => exact hs.readKeystates gattErr ht
  | atLeft => exact hs.atLeft ht
  | atClient => exact hs.atClient ht

end HalvesInv

/-- **Agreement**: in every state of every run in which the halves are in step and no
message is in flight, the client has the word of the last scan. -/
theorem halves_agree (buttonState : Word) (kbds : KbdsClient) (es : List HalvesEvent) :
    (halves buttonState kbds).Always
      (fun s => s.2.inStep = true → s.1.Quiet → s.1.Agree) es := by
  refine (Machine.alwaysFrom_of_step (I := HalvesInv) es ?_ fun s e t hs ht => ?_).mono
    fun s hs hin hquiet => ?_
  · refine ⟨Nat.zero_le _, fun _ => rfl, ?_⟩
    intro h
    cases h
  · obtain ⟨hstep, hnext⟩ := Machine.recording_step.mp ht
    have hinv := hs.step hstep
    rw [← hnext] at hinv
    exact hinv
  · have hsettles := hs.settles hin
    rwa [hquiet.2] at hsettles

/-- The client subscribes while two keys of the left half are held. The next scan finds
what the one before found, so nothing is sent. -/
theorem subscribed_while_keys_held :
    let es : List HalvesEvent := [.scan (pinsOf 5) 0, .writeCcc btGattCccNotify, .atLeft,
      .scan (pinsOf 5) 0]
    ¬(halves 0 .clientInit).Always (fun s => s.1.left.notifyEnabled = true →
      s.2.scanned = true → s.1.Quiet → s.1.Agree) es := by
  decide +kernel

end BleKeyboard
