import BleKeyboard.Base.Machine
import BleKeyboard.Firmware.Client
import Mathlib.Logic.Relation

/-!
# `call_key_report`, one access at a time

The client's notification handler runs in a thread of the Bluetooth stack, and can come
between any two accesses of `call_key_report` to `kbds.keystates`. Here the function is cut
at these accesses: a program counter says which comes next, and `notify_process` may run in
between.

`quiet_call`: left alone, the steps do what `callKeyReport` does in one.
-/

namespace BleKeyboard

open Base

/-- Where `call_key_report` is. In the loops `i` counts as in the source. -/
inductive Pc where
  /-- `if(kbds.keystates != 0xff)`, the first one -/
  | start
  /-- `if(kbds.keystates == 0xff)` -/
  | illegal
  /-- the `printk` before the early return -/
  | printIllegal
  /-- `has_changed = kbds.keystates ^ last_keystate_left` -/
  | mask
  /-- the layer so far, and the second `if(kbds.keystates != 0xff)` -/
  | layer
  /-- `is_ith_bit_set(kbds.keystates,22)` for layer 3 -/
  | layerBoth
  /-- `is_ith_bit_set(kbds.keystates,22)` for layer 1 -/
  | layerOne
  /-- the third `if(kbds.keystates != 0xff)` -/
  | left
  | leftTurn (i : Nat)
  /-- the `printk` of the key state -/
  | leftPrint (i : Nat)
  /-- `if(kbds.keystates & (1 << (i-1)))` -/
  | leftTest (i : Nat)
  /-- `create_report` -/
  | leftReport (i : Nat) (down : Bool)
  /-- `last_keystate_left = kbds.keystates` -/
  | store
  | rightTurn (i : Nat)
  | done
  deriving DecidableEq, Repr

/-- The state in the middle of a call: the client, the words of the poll, the static
`has_changed`, the keyboard state, and the calls of `create_report` made so far. -/
structure InCall where
  kbds : KbdsClient
  poll : Poll
  hasChanged : Word
  hid : Except Fault Hid
  calls : List Call
  pc : Pc

/-- The next access, or a notification that runs to completion. -/
inductive InCall.Event where
  | step
  | notified (data : Data)

namespace InCall

/-- The call is entered. -/
def enter (kbds : KbdsClient) (poll : Poll) (hasChanged : Word) (hid : Except Fault Hid) : InCall :=
  ⟨kbds, poll, hasChanged, hid, [], .start⟩

/-- One call of `create_report`. -/
def report (sendErr : Nat → Int) (modes : ConnModes) (c : Call) (s : InCall) : InCall :=
  { s with
    hid := s.hid.bind (createReport sendErr modes s.poll.layerSelection c)
    calls := s.calls ++ [c] }

/-- `kbds.keystates != 0xff`. -/
def valid (s : InCall) : Bool := decide (s.kbds.keystates ≠ noKeystates)

/-- One step of `call_key_report`. -/
def advance (sendErr : Nat → Int) (modes : ConnModes) (s : InCall) : Option InCall :=
  let p := s.poll
  match s.pc with
  | .start => some { s with pc := if s.valid then .illegal else .layer }
  | .illegal => some { s with pc := if s.valid then .mask else .printIllegal }
  | .printIllegal => some { s with pc := .done }
  | .mask =>
    some { s with hasChanged := s.kbds.keystates ^^^ p.lastKeystateLeft, pc := .layer }
  | .layer =>
    let layerSelection : Fin 4 :=
      if isIthBitSet p.keystateRight 19 || isIthBitSet p.lastKeystateRight 19 then 2 else 0
    some { s with
      poll := { p with layerSelection }
      pc := if s.valid then .layerBoth else .left }
  | .layerBoth =>
    if isIthBitSet s.kbds.keystates 22 && isIthBitSet p.keystateRight 19 ||
        isIthBitSet p.lastKeystateLeft 22 && isIthBitSet p.lastKeystateRight 19 then
      some { s with poll := { p with layerSelection := 3 }, pc := .left }
    else some { s with pc := .layerOne }
  | .layerOne =>
    if isIthBitSet s.kbds.keystates 22 || isIthBitSet p.lastKeystateLeft 22 then
      some { s with poll := { p with layerSelection := 1 }, pc := .left }
    else some { s with pc := .left }
  | .left => some { s with pc := if s.valid then .leftTurn 0 else .rightTurn 0 }
  | .leftTurn i =>
    if i < 25 then
      let position := BitVec.ofNat 32 i - 1#32
      some { s with
        pc := if s.hasChanged &&& shl1 position ≠ 0#32 then .leftPrint i else .leftTurn (i + 1) }
    else some { s with pc := .store }
  | .leftPrint i => some { s with pc := .leftTest i }
  | .leftTest i =>
    let position := BitVec.ofNat 32 i - 1#32
    some { s with pc := .leftReport i (decide (s.kbds.keystates &&& shl1 position ≠ 0#32)) }
  | .leftReport i down =>
    let position := BitVec.ofNat 32 i - 1#32
    some { s.report sendErr modes ⟨down, true, position.toNat⟩ with pc := .leftTurn (i + 1) }
  | .store =>
    some { s with poll := { p with lastKeystateLeft := s.kbds.keystates }, pc := .rightTurn 0 }
  | .rightTurn i =>
    if i < 25 then
      -- the words of the right half do not change under the call
      let s := match scanTurn p.rightKeystateChange p.lastKeystateRight false i with
        | some c => s.report sendErr modes c
        | none => s
      some { s with pc := .rightTurn (i + 1) }
    else some { s with pc := .done }
  | .done => none

/-- One event. -/
def react (sendErr : Nat → Int) (modes : ConnModes) (s : InCall) : Event → Option InCall
  | .step => s.advance sendErr modes
  | .notified data => (s.kbds.notifyProcess data).map fun r => { s with kbds := r.1 }

end InCall

/-- One call of `call_key_report`, with notifications in between. -/
def inCall (sendErr : Nat → Int) (modes : ConnModes) (kbds : KbdsClient) (poll : Poll)
    (hasChanged : Word) (hid : Except Fault Hid) : Machine InCall InCall.Event where
  init := .enter kbds poll hasChanged hid
  step := InCall.react sendErr modes

/-! ## Without notifications -/

namespace InCall

section

variable (sendErr : Nat → Int) (modes : ConnModes)

/-- One step leads to another state. -/
def Advances (s t : InCall) : Prop := s.advance sendErr modes = some t

/-- Any number of steps does. -/
abbrev Reaches : InCall → InCall → Prop := Relation.ReflTransGen (Advances sendErr modes)

variable {sendErr modes} {s t : InCall}

theorem reaches_head {u : InCall} (hone : s.advance sendErr modes = some t)
    (hrest : Reaches sendErr modes t u) : Reaches sendErr modes s u :=
  Relation.ReflTransGen.head hone hrest

/-- Steps are a run without notifications. -/
theorem run_of_reaches (kbds : KbdsClient) (poll : Poll) (hasChanged : Word)
    (hid : Except Fault Hid) (h : Reaches sendErr modes s t) :
    ∃ n, (inCall sendErr modes kbds poll hasChanged hid).runFrom s (List.replicate n .step)
      = some t := by
  induction h using Relation.ReflTransGen.head_induction_on with
  | refl => exact ⟨0, rfl⟩
  | @head s u hone _ ih =>
    obtain ⟨n, hn⟩ := ih
    refine ⟨n + 1, ?_⟩
    rw [List.replicate_succ, Machine.runFrom_cons]
    show (s.advance sendErr modes).bind _ = some t
    rw [show s.advance sendErr modes = some u from hone]
    exact hn

/-- The state after further calls of `create_report`. -/
def reports (sendErr : Nat → Int) (modes : ConnModes) (cs : List Call) (s : InCall) : InCall :=
  { s with
    hid := s.hid.bind (createReports sendErr modes s.poll.layerSelection cs)
    calls := s.calls ++ cs }

@[simp] theorem reports_nil : s.reports sendErr modes [] = s := by
  have hhid : s.hid.bind (createReports sendErr modes s.poll.layerSelection []) = s.hid := by
    cases s.hid <;> rfl
  rw [reports, hhid, List.append_nil]

theorem reports_cons (c : Call) (cs : List Call) :
    s.reports sendErr modes (c :: cs) = (s.report sendErr modes c).reports sendErr modes cs := by
  have hhid : s.hid.bind (createReports sendErr modes s.poll.layerSelection (c :: cs))
      = (s.hid.bind (createReport sendErr modes s.poll.layerSelection c)).bind
        (createReports sendErr modes s.poll.layerSelection cs) := by
    cases s.hid <;> rfl
  rw [reports, hhid, reports, report, List.append_assoc, List.singleton_append]

/-- The loop over the left half, from its turn `i`. -/
theorem reaches_store (k i : Nat) (hi : i + k = 25) (s : InCall) (hpc : s.pc = .leftTurn i) :
    Reaches sendErr modes s { s.reports sendErr modes ((List.range' i k).filterMap
      (scanTurn s.hasChanged s.kbds.keystates true)) with pc := .store } := by
  induction k generalizing i s with
  | zero =>
    refine .single ?_
    rw [Advances, advance, hpc]
    simp only [if_neg (show ¬i < 25 by omega), List.range'_zero, List.filterMap_nil, reports_nil]
  | succ k ih =>
    have hlt : i < 25 := by omega
    rw [List.range'_succ]
    by_cases hchanged : s.hasChanged &&& shl1 (BitVec.ofNat 32 i - 1#32) ≠ 0#32
    · -- a changed switch: print, test, report
      have hturn : scanTurn s.hasChanged s.kbds.keystates true i = some _ := if_pos hchanged
      rw [List.filterMap_cons_some hturn, reports_cons]
      refine reaches_head (t := { s with pc := .leftPrint i }) ?_ ?_
      · rw [advance, hpc]
        simp only [if_pos hlt, if_pos hchanged]
      refine reaches_head rfl (reaches_head rfl (reaches_head rfl ?_))
      exact ih (i + 1) (by omega) _ rfl
    · have hturn : scanTurn s.hasChanged s.kbds.keystates true i = none := if_neg hchanged
      rw [List.filterMap_cons_none hturn]
      refine reaches_head (t := { s with pc := .leftTurn (i + 1) }) ?_ ?_
      · rw [advance, hpc]
        simp only [if_pos hlt, if_neg hchanged]
      · exact ih (i + 1) (by omega) _ rfl

/-- The loop over the right half, from its turn `i`. -/
theorem reaches_done (k i : Nat) (hi : i + k = 25) (s : InCall) (hpc : s.pc = .rightTurn i) :
    Reaches sendErr modes s { s.reports sendErr modes ((List.range' i k).filterMap
      (scanTurn s.poll.rightKeystateChange s.poll.lastKeystateRight false)) with pc := .done } := by
  induction k generalizing i s with
  | zero =>
    refine .single ?_
    rw [Advances, advance, hpc]
    simp only [if_neg (show ¬i < 25 by omega), List.range'_zero, List.filterMap_nil, reports_nil]
  | succ k ih =>
    have hlt : i < 25 := by omega
    rw [List.range'_succ]
    cases hturn : scanTurn s.poll.rightKeystateChange s.poll.lastKeystateRight false i with
    | none =>
      rw [List.filterMap_cons_none hturn]
      refine reaches_head (t := { s with pc := .rightTurn (i + 1) }) ?_ ?_
      · rw [advance, hpc]
        simp only [if_pos hlt, hturn]
      · exact ih (i + 1) (by omega) _ rfl
    | some c =>
      rw [List.filterMap_cons_some hturn, reports_cons]
      refine reaches_head (t := { s.report sendErr modes c with pc := .rightTurn (i + 1) }) ?_ ?_
      · rw [advance, hpc]
        simp only [if_pos hlt, hturn]
      · exact ih (i + 1) (by omega) _ rfl

/-- The right half, up to the end of the call. -/
theorem reaches_end (s : InCall) (hpc : s.pc = .rightTurn 0) :
    Reaches sendErr modes s { s.reports sendErr modes s.poll.rightCalls with pc := .done } :=
  reaches_done 25 0 rfl s hpc

/-- The choice of the layer. -/
theorem reaches_left (s : InCall) (hpc : s.pc = .layer) :
    Reaches sendErr modes s { s with
      poll := { s.poll with layerSelection := s.poll.selectLayer s.kbds.keystates }
      pc := .left } := by
  unfold Poll.selectLayer
  by_cases hvalid : s.kbds.keystates ≠ noKeystates
  · have hv : s.valid = true := decide_eq_true hvalid
    rw [if_pos hvalid]
    refine reaches_head (t := { s with
      poll := { s.poll with
        layerSelection := if isIthBitSet s.poll.keystateRight 19
          || isIthBitSet s.poll.lastKeystateRight 19 then 2 else 0 }
      pc := .layerBoth }) ?_ ?_
    · rw [advance, hpc]
      simp only [hv, if_true]
    by_cases hboth : (isIthBitSet s.kbds.keystates 22 && isIthBitSet s.poll.keystateRight 19 ||
        isIthBitSet s.poll.lastKeystateLeft 22 && isIthBitSet s.poll.lastKeystateRight 19) = true
    · rw [if_pos hboth]
      exact .single (if_pos hboth)
    · rw [if_neg hboth]
      refine reaches_head (if_neg hboth) ?_
      by_cases hone : (isIthBitSet s.kbds.keystates 22
          || isIthBitSet s.poll.lastKeystateLeft 22) = true
      · rw [if_pos hone]
        exact .single (if_pos hone)
      · rw [if_neg hone]
        exact .single (if_neg hone)
  · have hv : s.valid = false := decide_eq_false hvalid
    rw [if_neg hvalid]
    refine .single ?_
    rw [Advances, advance, hpc]
    simp only [hv, Bool.false_eq_true, if_false]

/-- The calls of the left half, then those of the right half. -/
theorem reports_append (cs ds : List Call) :
    (s.reports sendErr modes cs).reports sendErr modes ds = s.reports sendErr modes (cs ++ ds) := by
  induction cs generalizing s with
  | nil => rw [reports_nil, List.nil_append]
  | cons c cs ih => rw [reports_cons, ih, List.cons_append, reports_cons]

/-- Both halves, once the layer is chosen. -/
theorem reaches_done_of_left (s : InCall) (hpc : s.pc = .left)
    (hchanged : s.kbds.keystates ≠ noKeystates →
      s.hasChanged = s.kbds.keystates ^^^ s.poll.lastKeystateLeft) :
    Reaches sendErr modes s { s.reports sendErr modes (s.poll.calls s.kbds.keystates) with
      poll := { s.poll with lastKeystateLeft :=
        if s.kbds.keystates ≠ noKeystates then s.kbds.keystates else s.poll.lastKeystateLeft }
      pc := .done } := by
  rw [Poll.calls, Poll.leftCalls, ← reports_append]
  by_cases hvalid : s.kbds.keystates ≠ noKeystates
  · have hv : s.valid = true := decide_eq_true hvalid
    rw [if_pos hvalid, if_pos hvalid, ← hchanged hvalid]
    refine reaches_head (t := { s with pc := .leftTurn 0 }) ?_ ?_
    · rw [advance, hpc]
      simp only [hv, if_true]
    refine (reaches_store 25 0 rfl _ rfl).trans (reaches_head rfl ?_)
    rw [← List.range_eq_range']
    exact reaches_end _ rfl
  · have hv : s.valid = false := decide_eq_false hvalid
    rw [if_neg hvalid, if_neg hvalid, reports_nil]
    refine reaches_head (t := { s with pc := .rightTurn 0 }) ?_ (reaches_end _ rfl)
    rw [advance, hpc]
    simp only [hv, Bool.false_eq_true, if_false]

end

end InCall

/-- **Left alone**, the steps of a call do what `callKeyReport` does. -/
theorem quiet_call (sendErr : Nat → Int) (modes : ConnModes) (kbds : KbdsClient) (poll : Poll)
    (hasChanged : Word) (hid : Except Fault Hid) :
    ∃ n s, (inCall sendErr modes kbds poll hasChanged hid).run (List.replicate n .step) = some s ∧
      s.pc = .done ∧ s.calls = poll.calls kbds.keystates ∧
      (s.poll, s.hid) = callKeyReport sendErr modes kbds.keystates poll hid := by
  -- from the choice of the layer on, given the mask of changes
  have hrest : ∀ changed : Word,
      (kbds.keystates ≠ noKeystates → changed = kbds.keystates ^^^ poll.lastKeystateLeft) →
      InCall.Reaches sendErr modes ⟨kbds, poll, changed, hid, [], .layer⟩
        ⟨kbds, poll.reported kbds.keystates, changed,
          hid.bind (createReports sendErr modes (poll.selectLayer kbds.keystates)
            (poll.calls kbds.keystates)), poll.calls kbds.keystates, .done⟩ := by
    intro changed hchanged
    exact (InCall.reaches_left _ rfl).trans (InCall.reaches_done_of_left _ rfl hchanged)
  have hreach : ∃ changed, InCall.Reaches sendErr modes
      (InCall.enter kbds poll hasChanged hid)
        ⟨kbds, poll.reported kbds.keystates, changed,
          hid.bind (createReports sendErr modes (poll.selectLayer kbds.keystates)
            (poll.calls kbds.keystates)), poll.calls kbds.keystates, .done⟩ := by
    by_cases hvalid : kbds.keystates ≠ noKeystates
    · have hv : ∀ pc, (⟨kbds, poll, hasChanged, hid, [], pc⟩ : InCall).valid = true :=
        fun _ => decide_eq_true hvalid
      refine ⟨kbds.keystates ^^^ poll.lastKeystateLeft, ?_⟩
      refine InCall.reaches_head (t := ⟨kbds, poll, hasChanged, hid, [], .illegal⟩) ?_ ?_
      · simp only [InCall.enter, InCall.advance, hv, if_true]
      refine InCall.reaches_head (t := ⟨kbds, poll, hasChanged, hid, [], .mask⟩) ?_ ?_
      · simp only [InCall.advance, hv, if_true]
      exact InCall.reaches_head rfl (hrest _ fun _ => rfl)
    · have hv : ∀ pc, (⟨kbds, poll, hasChanged, hid, [], pc⟩ : InCall).valid = false :=
        fun _ => decide_eq_false hvalid
      refine ⟨hasChanged, ?_⟩
      refine InCall.reaches_head (t := ⟨kbds, poll, hasChanged, hid, [], .layer⟩) ?_ ?_
      · simp only [InCall.enter, InCall.advance, hv, Bool.false_eq_true, if_false]
      exact hrest _ fun h => absurd h hvalid
  obtain ⟨changed, hreach⟩ := hreach
  obtain ⟨n, hn⟩ := InCall.run_of_reaches kbds poll hasChanged hid hreach
  exact ⟨n, _, hn, rfl, rfl, rfl⟩

end BleKeyboard
