import BleKeyboard.Firmware.ClientCalls
import Mathlib.Data.List.Nodup

/-!
# Single reads

`read_cb` is the busy flag of `bt_kbds_read_keystates` and the callback that `read_process`
invokes. `bt_kbds_handles_assign` clears it, "cancel previous read request", but only the
delayed work is cancelled: a read that is in flight is still answered, and meanwhile another
one is accepted on the same `read_params`.

`reads_served_iff`: every accepted read calls its own callback, once, with the result of its
own response, exactly on the runs in which the client is assigned anew only when no read is
in flight.
-/

namespace BleKeyboard

open Base KbdsClient

/-- The single reads that the stack has accepted, each named by its callback. -/
structure ReadLog where
  /-- Not answered yet, in the order of the requests. -/
  inFlight : List ReadCb
  /-- Answered, with the error code and the data of the response. -/
  answered : List (ReadCb × Byte × Data)
  /-- The calls of callbacks on the way. -/
  invoked : List ReadReply

namespace ReadLog

/-- The read that is answered next. -/
def respond (l : ReadLog) (kbds : KbdsClient) (err : Byte) (data : Data) : ReadLog where
  inFlight := l.inFlight.tail
  answered := l.answered ++ l.inFlight.head?.toList.map fun func => (func, err, data)
  invoked := l.invoked ++ (kbds.readProcess err data).2.toList

/-- A call adds a read that is accepted, or answers the first one in flight. -/
def next (l : ReadLog) (kbds : KbdsClient) : Op → ReadLog
  | .readKeystates func gattErr =>
    if (kbds.readKeystates func gattErr).1 = 0 then { l with inFlight := l.inFlight ++ [func] }
    else l
  | .readProcess err data => l.respond kbds err data
  | _ => l

/-- Every read has its own callback, and a response comes only to a read in flight. -/
def Allows (s : KbdsClient × ReadLog) : Op → Prop
  | .readKeystates func _ => func ∉ s.2.answered.map Prod.fst ++ s.2.inFlight
  | .readProcess _ _ => s.2.inFlight ≠ []
  | _ => True

instance (s : KbdsClient × ReadLog) : DecidablePred (Allows s)
  | .readKeystates _ _ | .readProcess _ _ => inferInstanceAs (Decidable (¬_))
  | .handlesAssign _ | .subscribeKeystates _ _ | .unsubscribeKeystates _
  | .startPerReadKeystates _ _ | .stopPerReadKeystates | .kbdsReadValueHandler _
  | .notifyProcess _ | .periodicReadProcess _ _ | .disconnected _ _ =>
    inferInstanceAs (Decidable True)

/-- What a callback is to be told about its read. -/
def due (r : ReadCb × Byte × Data) : ReadReply :=
  ⟨r.1, (readResult r.2.1 r.2.2).1, (readResult r.2.1 r.2.2).2⟩

/-- Every accepted read has called its own callback with its own result, or will do so on
its response. -/
structure Served (s : KbdsClient × ReadLog) : Prop where
  /-- At most one read is in flight, -/
  one : s.2.inFlight.length ≤ 1
  /-- and the response to it will find its callback. -/
  awaited : ∀ func ∈ s.2.inFlight, s.1.readCb = some func
  /-- Each answered read has called its callback, with the result of its response, -/
  own : s.2.invoked = s.2.answered.map due
  /-- and no callback has been or will be called twice. -/
  once : (s.2.answered.map Prod.fst ++ s.2.inFlight).Nodup

/-- The client is assigned anew only when no read is in flight. -/
def Idle (s : KbdsClient × ReadLog) : Op → Prop
  | .handlesAssign dm => dm.isKbds = true → s.2.inFlight = []
  | _ => True

/-! ## One call -/

variable {kbds t : KbdsClient} {l : ReadLog}

/-- Only the callback of the read matters. -/
theorem Served.congr (hs : Served (kbds, l)) (hcb : t.readCb = kbds.readCb) : Served (t, l) :=
  ⟨hs.one, fun func hfunc => hcb.trans (hs.awaited func hfunc), hs.own, hs.once⟩

/-- With no read in flight, the client is free. -/
theorem Served.of_idle (hs : Served (kbds, l)) (hidle : l.inFlight = []) : Served (t, l) :=
  ⟨hs.one, fun _ hfunc => absurd (hidle ▸ hfunc) List.not_mem_nil, hs.own, hs.once⟩

/-- A client that is ready to read has no read in flight. -/
theorem Served.inFlight_of_reads (hs : Served (kbds, l)) (hr : kbds.Reads) : l.inFlight = [] := by
  rw [List.eq_nil_iff_forall_not_mem]
  intro func hfunc
  have hcb : kbds.readCb = some func := hs.awaited func hfunc
  rw [hr.2] at hcb
  cases hcb

theorem Served.readKeystates (hs : Served (kbds, l)) {func : ReadCb} {gattErr : Int}
    (hallow : Allows (kbds, l) (.readKeystates func gattErr))
    (ht : t.readCb = kbds.nextReadCb (.readKeystates func gattErr)) :
    Served (t, l.next kbds (.readKeystates func gattErr)) := by
  rw [nextReadCb] at ht
  rw [next]
  by_cases hr : kbds.Reads
  · rw [kbds.readKeystates_of_reads func gattErr hr]
    rw [if_pos hr] at ht
    have hidle := hs.inFlight_of_reads hr
    by_cases herr : gattErr = 0
    · -- the read is accepted, and waited for
      rw [if_pos herr]
      rw [if_pos herr] at ht
      refine ⟨?_, ?_, hs.own, ?_⟩
      · rw [hidle]
        exact Nat.le_refl 1
      · intro f hf
        rw [hidle] at hf
        rwa [List.mem_singleton.mp hf]
      · rw [← List.append_assoc, ← List.concat_eq_append]
        exact hs.once.concat hallow
    · rw [if_neg herr]
      exact hs.of_idle hidle
  · obtain ⟨ret, hret, heq⟩ := kbds.readKeystates_of_not_reads func gattErr hr
    rw [heq, if_neg hret]
    rw [if_neg hr] at ht
    exact hs.congr ht

/-- A response calls the callback of the one read in flight. -/
theorem Served.respond (hs : Served (kbds, l)) (hflight : l.inFlight ≠ []) (err : Byte)
    (data : Data) : Served (t, l.respond kbds err data) := by
  obtain ⟨func, hfunc⟩ : ∃ func, l.inFlight = [func] :=
    List.length_eq_one_iff.mp (Nat.le_antisymm hs.one (List.length_pos_iff.mpr hflight))
  have hcb : kbds.readCb = some func := hs.awaited func (hfunc ▸ List.mem_singleton_self func)
  have honce := hs.once
  have hown : l.invoked = l.answered.map due := hs.own
  dsimp only at honce
  rw [hfunc] at honce
  constructor
  · simp [ReadLog.respond, hfunc]
  · simp [ReadLog.respond, hfunc]
  · simp [ReadLog.respond, hfunc, hown, readProcess_reply, hcb, due]
  · simpa [ReadLog.respond, hfunc] using honce

theorem served_iff_idle {op : Op} (hs : Served (kbds, l)) (hallow : Allows (kbds, l) op)
    (hstep : kbds.call op = some t) : Served (t, l.next kbds op) ↔ Idle (kbds, l) op := by
  have ht := (called hstep).readCb
  cases op with
  | handlesAssign dm =>
    rw [nextReadCb] at ht
    constructor
    · intro hserved hkbds
      rw [if_pos hkbds] at ht
      rw [List.eq_nil_iff_forall_not_mem]
      intro func hfunc
      have hcb : t.readCb = some func := hserved.awaited func hfunc
      rw [ht] at hcb
      cases hcb
    · intro hidle
      cases hkbds : dm.isKbds with
      | true => exact hs.of_idle (hidle hkbds)
      | false =>
        rw [hkbds] at ht
        exact hs.congr ht
  | readKeystates func gattErr => exact iff_of_true (hs.readKeystates hallow ht) trivial
  | readProcess err data => exact iff_of_true (hs.respond hallow err data) trivial
  | _ => exact iff_of_true (hs.congr ht) trivial

end ReadLog

/-! ## Runs -/

/-- The calls in any order, with the reads that the stack has accepted. -/
def reading : Machine (KbdsClient × ReadLog) Op :=
  (client.recording ⟨[], [], []⟩ ReadLog.next).under ReadLog.Allows

/-- **Every accepted read is served**, in every state of a run, exactly on the runs in which
the client is assigned anew only when no read is in flight. -/
theorem reads_served_iff (ops : List Op) :
    reading.Always ReadLog.Served ops ↔ reading.Along (fun s op _ => ReadLog.Idle s op) ops := by
  refine Machine.always_iff ⟨Nat.zero_le 1, nofun, rfl, List.nodup_nil⟩ ?_
  rintro ⟨kbds, l⟩ op ⟨t, l'⟩ hs hstep
  obtain ⟨hallow, hcall, rfl⟩ := Machine.recording_under_step.mp hstep
  exact ReadLog.served_iff_idle hs hallow hcall

/-- A discovery while a read is in flight: the second read is accepted, and its callback is
called on the response to the first. The response to the second calls nobody. -/
theorem response_reaches_other_read :
    let dm : Discovery := ⟨1, true, some btGattChrcNotify, some 3, some 4⟩
    let ops : List Op :=
      [.handlesAssign dm, .readKeystates (.other 0) 0, .handlesAssign dm,
        .readKeystates (.other 1) 0, .readProcess 0 (some [5]), .readProcess 0 (some [6])]
    ¬reading.Always ReadLog.Served ops ∧
    ∃ s, reading.run ops = some s ∧
      s.2.answered = [(.other 0, 0, some [5]), (.other 1, 0, some [6])] ∧
      s.2.invoked = [⟨.other 1, 5, 0⟩] := by
  refine ⟨?_, _, rfl, rfl, rfl⟩
  intro hall
  have hown := (hall.last rfl).own
  exact absurd (congrArg List.length hown) (by decide)

end BleKeyboard
