import BleKeyboard.Link.Account

/-!
# The left half: reads behind the poll's back

`last_keystate_left` is the word the poll compares the left half with. It has a second
writer, `read_keystates_cb`, which stores the value of a read there without dispatching
anything.

`left_edges_faithful_iff`: the left edges are faithful exactly on the runs in which every
poll still finds the word of the poll before it; and these include all runs in which no
read brings a different one.

Notifications, rediscoveries, periodic reads and disconnects of the left link may come
in any order: they write `kbds.keystates` only, and the poll compares.
-/

namespace BleKeyboard

open Base

universe u

namespace Firmware

variable {κ : Type u}

/-- What an event stores in `last_keystate_left` through `read_keystates_cb`. -/
def storedByRead (fw : Firmware κ) : Event κ → Option Word
  | .readResponse err (some [b]) =>
    if fw.kbds.readCb = some .readKeystatesCb ∧ err = 0 then some (readValue b) else none
  | _ => none

/-- A read that reaches `read_keystates_cb` without error brings the low 24 bits that
`last_keystate_left` has. -/
def ReadAgrees (fw : Firmware κ) (e : Event κ) : Prop :=
  ∀ w ∈ fw.storedByRead e, w.setWidth 24 = fw.poll.lastKeystateLeft.setWidth 24

/-- What a read stores is what its callback is told without an error. -/
theorem storedByRead_eq (fw : Firmware κ) (err : Byte) (data : Data) :
    fw.storedByRead (.readResponse err data) =
      if fw.kbds.readCb = some .readKeystatesCb ∧ (readResult err data).2 = 0 then
        some (readResult err data).1 else none := by
  have hcode := readResult_eq_zero_iff err data
  rcases data with _ | _ | ⟨b, _ | ⟨c, bs⟩⟩
  · exact (if_neg fun h => absurd (hcode.mp h.2).2 (by simp)).symm
  · exact (if_neg fun h => absurd (hcode.mp h.2).2 (by simp)).symm
  · by_cases herr : err = 0#8
    · subst herr
      simp [storedByRead, readResult]
    · rw [if_neg fun h => herr (hcode.mp h.2).1]
      exact if_neg fun h => herr h.2
  · exact (if_neg fun h => absurd (hcode.mp h.2).2 (by simp)).symm

theorem invoke_readProcess (fw : Firmware κ) (err : Byte) (data : Data) :
    (invoke (fw.kbds.readProcess err data).2 fw.poll).lastKeystateLeft
      = (fw.storedByRead (.readResponse err data)).getD fw.poll.lastKeystateLeft := by
  rw [KbdsClient.readProcess_reply, storedByRead_eq]
  rcases fw.kbds.readCb with _ | _ | id
  · rfl
  · by_cases hcode : (readResult err data).2 = 0
    · simp [invoke, readKeystatesCb, hcode]
    · simp [invoke, readKeystatesCb, hcode]
  · -- another callback leaves the words of the poll alone
    simp [invoke]

/-- The poll's word for the left half has two writers. -/
theorem nextPoll_lastKeystateLeft (fw : Firmware κ) (e : Event κ) :
    (fw.nextPoll e).lastKeystateLeft =
      match e with
      | .turn _ => if fw.reporting = true ∧ fw.kbds.keystates ≠ noKeystates then
          fw.kbds.keystates else fw.poll.lastKeystateLeft
      | e => (fw.storedByRead e).getD fw.poll.lastKeystateLeft := by
  cases e with
  | turn pins =>
    rw [nextPoll, polled]
    by_cases hrep : fw.reporting = true
    · simp [hrep, Poll.reported]
    · simp only [if_neg hrep, if_neg fun h => hrep (And.left h)]
      split <;> rfl
  | readResponse err data => exact fw.invoke_readProcess err data
  | _ => rfl

/-- `last_keystate_left` is the word of the last poll of the left half. -/
def LeftKept (s : Firmware κ × Account) : Prop :=
  s.1.poll.lastKeystateLeft.setWidth 24 = s.2.left.setWidth 24

/-- Without disagreeing reads, the poll finds what it left. -/
theorem LeftKept.step {sendErr : Nat → Int} {s t : Firmware κ × Account} {e : Event κ}
    (hs : LeftKept s) (hread : s.1.ReadAgrees e)
    (ht : (accounting κ sendErr).step s e = some t) : LeftKept t := by
  obtain ⟨hstep, hacc⟩ := accounting_step ht
  rw [LeftKept, hstep.poll, nextPoll_lastKeystateLeft, hacc]
  cases e with
  | turn pins =>
    show BitVec.setWidth 24 (if s.1.reporting = true ∧ s.1.kbds.keystates ≠ noKeystates then
      s.1.kbds.keystates else s.1.poll.lastKeystateLeft) = _
    rw [nextAccount]
    by_cases hrep : s.1.reporting = true
    · rw [if_pos hrep, Account.call]
      by_cases hk : s.1.kbds.keystates ≠ noKeystates
      · rw [if_pos ⟨hrep, hk⟩, if_pos hk]
      · rw [if_neg fun h => hk h.2, if_neg hk]
        exact hs
    · rw [if_neg hrep, if_neg fun h => hrep h.1]
      exact hs
  | readResponse err data =>
    show BitVec.setWidth 24 ((s.1.storedByRead (.readResponse err data)).getD _) = _
    rw [ReadAgrees] at hread
    cases hstored : s.1.storedByRead (.readResponse err data) with
    | none => exact hs
    | some w => exact (hread w hstored).trans hs
  | _ => exact hs

theorem LeftKept.agrees {s : Firmware κ × Account} (hs : LeftKept s) (e : Event κ) :
    s.1.Agrees s.2 true e := by
  cases e with
  | turn pins => exact fun _ _ => hs
  | _ => trivial

end Firmware

/-- **Left edges**: they alternate and add up to the word of the last poll of the left
half exactly on the runs in which each such poll finds in `last_keystate_left` what the
poll before it saw; a run without disagreeing reads is one. -/
theorem left_edges_faithful_iff {κ : Type u} (sendErr : Nat → Int)
    (es : List (Firmware.Event κ)) :
    ((accounting κ sendErr).Always (fun s => s.2.Faithful true) es ↔
      (accounting κ sendErr).Along (fun s e _ => s.1.Agrees s.2 true e) es) ∧
    ((accounting κ sendErr).Along (fun s e _ => s.1.ReadAgrees e) es →
      (accounting κ sendErr).Along (fun s e _ => s.1.Agrees s.2 true e) es) := by
  refine ⟨accounting_faithful_iff sendErr true es, ?_⟩
  intro hreads
  refine Machine.AlongFrom.of_inv (I := Firmware.LeftKept) rfl hreads ?_
  intro s e t hs hread ht
  exact ⟨hs.step hread ht, hs.agrees e⟩

/-- The left half is found while two of its keys are held, and the read of its key state
comes before the first poll: the poll sees the keys and dispatches nothing. -/
theorem read_swallows_left_edges :
    let es : List (Firmware.Event Nat) :=
      [.connected 1 0 .peripheral 0, .securityChanged 1 0, .scanConnecting 2,
        .connected 2 0 .central 0,
        .discoveryCompleted ⟨2, true, some btGattChrcNotify, some 3, some 4⟩ 0 0,
        .readResponse 0 (some [5]), .turn (pinsOf 0)]
    ¬(accounting Nat fun _ => 0).Always (fun s => s.2.Faithful true) es ∧
    ∃ s, (accounting Nat fun _ => 0).run es = some s ∧
      s.1.kbds.keystates = 5 ∧ s.2.left = 5 ∧ s.2.edges = [] := by
  refine ⟨by decide +kernel, _, rfl, ?_⟩
  decide +kernel

end BleKeyboard
