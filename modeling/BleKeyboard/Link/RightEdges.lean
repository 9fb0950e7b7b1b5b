import BleKeyboard.Link.Account
import BleKeyboard.Report.KeyLoop

/-!
# The right half: scans that no call looks at

Both branches of the main loop scan the right half and overwrite
`right_keystate_change` with what this scan changed, but only a call of
`call_key_report` dispatches it, one turn later. What a scan found is lost if the next
turn is one of pairing mode.

- `right_edges_faithful_iff`: the right edges are faithful exactly on the runs in which
  each call finds the whole difference to the word of the call before it.
- `dispatched_at_most_once`: no change of a scan is dispatched twice, on any run.
- `slots_show_held_keys`: where both halves are faithful, releases carry the codes of
  their presses and there is room, the slot table holds no code of a switch that is up.
-/

namespace BleKeyboard

open Base
open Base.Edge

universe u

/-! ## Each change at most once -/

/-- The scans of the right half: how many there were, the changes each found, and the
changes that have been dispatched, as pairs of scan and switch. -/
structure ScanLog where
  scans : Nat
  changes : List (Nat × Nat)
  dispatched : List (Nat × Nat)

namespace ScanLog

/-- No scan yet. -/
def zero : ScanLog := ⟨0, [], []⟩

/-- The switches in which two words differ. -/
def differing (v w : Word) : List Nat :=
  (List.range 24).filter fun i => v.getLsbD i ≠ w.getLsbD i

/-- The next scan, and what it changed. -/
def scan (pins : Pins) (p : Poll) (log : ScanLog) : ScanLog :=
  { log with
    scans := log.scans + 1
    changes := log.changes
      ++ (differing (readMatrix pins) p.lastKeystateRight).map (Prod.mk (log.scans + 1)) }

/-- A call dispatches what the last scan left behind. -/
def dispatch (p : Poll) (log : ScanLog) : ScanLog :=
  { log with
    dispatched := log.dispatched ++ p.rightCalls.map fun c => (log.scans, c.position) }

/-- Every dispatched change is a change that its scan found, dispatched once. -/
def AtMostOnce (log : ScanLog) : Prop :=
  log.dispatched.Nodup ∧ log.dispatched ⊆ log.changes

/-- The mask holds the changes of the last scan, and all dispatched changes are of
scans before it. -/
structure Inv (p : Poll) (log : ScanLog) : Prop where
  once : log.AtMostOnce
  mask : ∀ c ∈ p.rightCalls, (log.scans, c.position) ∈ log.changes
  before : ∀ d ∈ log.dispatched, d.1 < log.scans

/-- Between a call and the scan that follows it, the last scan may have been
dispatched. -/
structure Dispatched (log : ScanLog) : Prop where
  once : log.AtMostOnce
  upTo : ∀ d ∈ log.dispatched, d.1 ≤ log.scans

variable {p : Poll} {log : ScanLog}

theorem Inv.dispatched (h : Inv p log) : Dispatched log :=
  ⟨h.once, fun d hd => Nat.le_of_lt (h.before d hd)⟩

theorem nodup_rightCalls (p : Poll) : (p.rightCalls.map Call.position).Nodup := by
  have hpos : (p.rightCalls.map Call.pos).Nodup := scanChanges_nodup _ _ _
  have hmap : p.rightCalls.map Call.pos = (p.rightCalls.map Call.position).map (Prod.mk false) := by
    rw [List.map_map]
    refine List.map_congr_left ?_
    intro c hc
    exact Prod.ext (Poll.mem_rightCalls.mp hc).1 rfl
  rw [hmap] at hpos
  exact hpos.of_map

/-- A call dispatches changes of the last scan, none of which has been dispatched. -/
theorem Inv.dispatch (h : Inv p log) : Dispatched (log.dispatch p) where
  once := by
    refine ⟨h.once.1.append ?_ ?_, List.append_subset.mpr ⟨h.once.2, ?_⟩⟩
    · have hmap : (p.rightCalls.map fun c => (log.scans, c.position))
          = (p.rightCalls.map Call.position).map (Prod.mk log.scans) := List.map_map.symm
      rw [hmap]
      exact (nodup_rightCalls p).map fun i j hij => (Prod.mk.inj hij).2
    · intro d hd hd'
      obtain ⟨c, -, rfl⟩ := List.mem_map.mp hd'
      exact Nat.lt_irrefl _ (h.before _ hd)
    · intro d hd
      obtain ⟨c, hc, rfl⟩ := List.mem_map.mp hd
      exact h.mask c hc
  upTo := by
    intro d hd
    rcases List.mem_append.mp hd with hold | hnew
    · exact Nat.le_of_lt (h.before d hold)
    · obtain ⟨c, -, rfl⟩ := List.mem_map.mp hnew
      exact Nat.le_refl _

/-- The scan after it overwrites the mask. -/
theorem Dispatched.scan (h : Dispatched log) (pins : Pins) (p : Poll) :
    Inv (p.scanned pins) (log.scan pins p) where
  once := ⟨h.once.1, fun d hd => List.mem_append_left _ (h.once.2 hd)⟩
  mask := by
    intro c hc
    obtain ⟨-, hpos, hchanged, -⟩ := Poll.mem_rightCalls.mp hc
    rw [Poll.scanned_rightKeystateChange, BitVec.getLsbD_xor] at hchanged
    refine List.mem_append_right _ (List.mem_map.mpr ⟨c.position, ?_, rfl⟩)
    exact List.mem_filter.mpr ⟨List.mem_range.mpr hpos, decide_eq_true (bne_iff_ne.mp hchanged)⟩
  before := fun d hd => Nat.lt_succ_of_le (h.upTo d hd)

theorem inv_zero : Inv .zero .zero where
  once := ⟨List.nodup_nil, List.nil_subset _⟩
  mask := by
    intro c hc
    have hchanged := (Poll.mem_rightCalls.mp hc).2.2.1
    exact absurd hchanged (by show ¬(0 : Word).getLsbD c.position = true; simp)
  before := by
    intro d hd
    cases hd

end ScanLog

/-- The scan log after an event. -/
def Firmware.nextScanLog {κ : Type u} (log : ScanLog) (fw : Firmware κ) : Event κ → ScanLog
  | .turn pins =>
    if fw.reporting then (log.dispatch fw.poll).scan pins fw.poll
    else if fw.inPairingMode then log.scan pins fw.poll
    else log
  | _ => log

/-- The firmware, with the log of its scans on the side. -/
def scanLogging (κ : Type u) (sendErr : Nat → Int) :
    Machine (Firmware κ × ScanLog) (Firmware.Event κ) :=
  (firmware κ sendErr).recording .zero Firmware.nextScanLog

/-- Reads and polls of the left half do not move the mask. -/
theorem ScanLog.Inv.congr {p q : Poll} {log : ScanLog} (h : Inv p log)
    (hright : q.lastKeystateRight = p.lastKeystateRight)
    (hmask : q.rightKeystateChange = p.rightKeystateChange) : Inv q log where
  once := h.once
  mask := by
    intro c hc
    refine h.mask c ?_
    rwa [Poll.rightCalls, hright, hmask] at hc
  before := h.before

theorem Firmware.invoke_right (reply : Option ReadReply) (p : Poll) :
    (invoke reply p).lastKeystateRight = p.lastKeystateRight ∧
      (invoke reply p).rightKeystateChange = p.rightKeystateChange := by
  rcases reply with _ | ⟨_ | id, keystates, err⟩
  · exact ⟨rfl, rfl⟩
  · rw [invoke, readKeystatesCb]
    split <;> exact ⟨rfl, rfl⟩
  · exact ⟨rfl, rfl⟩

/-- **Each change at most once**, on every run. -/
theorem dispatched_at_most_once {κ : Type u} (sendErr : Nat → Int)
    (es : List (Firmware.Event κ)) :
    (scanLogging κ sendErr).Always (fun s => s.2.AtMostOnce) es := by
  refine (Machine.alwaysFrom_of_step (I := fun s => ScanLog.Inv s.1.poll s.2) es
    ScanLog.inv_zero fun s e t hs ht => ?_).mono fun s hs => hs.once
  obtain ⟨hstep, hlog⟩ := Machine.recording_step.mp ht
  rw [hlog, (Firmware.stepped hstep).poll]
  cases e with
  | turn pins =>
    rw [Firmware.nextPoll, Firmware.polled, Firmware.nextScanLog]
    -- a call and a scan, a scan alone, or neither
    split
    · exact hs.dispatch.scan pins (s.1.poll.reported s.1.kbds.keystates)
    · split
      · exact hs.dispatched.scan pins s.1.poll
      · exact hs
  | readResponse err data =>
    obtain ⟨hright, hmask⟩ := Firmware.invoke_right (s.1.kbds.readProcess err data).2 s.1.poll
    exact hs.congr hright hmask
  | _ => exact hs

/-! ## Pairing mode between two calls -/

namespace Firmware

variable {κ : Type u}

/-- A turn of the pairing branch finds no change that a call has yet to dispatch. -/
def MaskKept (fw : Firmware κ) : Event κ → Prop
  | .turn _ => fw.reporting = false → fw.inPairingMode = true →
      fw.poll.rightKeystateChange.setWidth 24 = 0
  | _ => True

/-- The word whose changes have been dispatched is the one that the last call saw. -/
def RightKept (s : Firmware κ × Account) : Prop :=
  s.1.poll.dispatchedRight.setWidth 24 = s.2.right.setWidth 24

theorem RightKept.step {sendErr : Nat → Int} {s t : Firmware κ × Account} {e : Event κ}
    (hs : RightKept s) (hmask : s.1.MaskKept e)
    (ht : (accounting κ sendErr).step s e = some t) : RightKept t := by
  obtain ⟨hstep, hacc⟩ := accounting_step ht
  rw [RightKept, hstep.poll, hacc]
  cases e with
  | turn pins =>
    rw [nextPoll, polled, nextAccount]
    by_cases hrep : s.1.reporting = true
    · -- the call has dispatched the word that the scan replaces
      rw [if_pos hrep, if_pos hrep, Poll.scanned_dispatchedRight]
      rfl
    · rw [if_neg hrep, if_neg hrep]
      by_cases hpair : s.1.inPairingMode = true
      · -- the scan replaces an empty mask
        rw [if_pos hpair, Poll.scanned_dispatchedRight, ← hs, Poll.dispatchedRight,
          BitVec.setWidth_xor, hmask (Bool.eq_false_of_not_eq_true hrep) hpair]
        exact BitVec.xor_zero.symm
      · rw [if_neg hpair]
        exact hs
  | readResponse err data =>
    obtain ⟨hright, hchange⟩ := invoke_right (s.1.kbds.readProcess err data).2 s.1.poll
    rw [nextPoll, Poll.dispatchedRight, hright, hchange]
    exact hs
  | _ => exact hs

theorem RightKept.agrees {s : Firmware κ × Account} (hs : RightKept s) (e : Event κ) :
    s.1.Agrees s.2 false e := by
  cases e with
  | turn pins => exact fun _ _ => hs
  | _ => trivial

end Firmware

/-! ## The slot table -/

theorem downs_half {lOrR : Bool} {q : Pos} (hq : q.1 = lOrR) (h : History) :
    downs (half lOrR h) q = downs h q := by
  unfold downs half
  rw [List.filter_filter]
  congr 1
  refine List.filter_congr ?_
  intro e _
  by_cases he : e.pos = q
  · simp [he, hq]
  · simp [he]

/-- A history alternates if its halves do. -/
theorem alternates_of_halves {h : History} (hboth : ∀ lOrR, Alternates (half lOrR h)) :
    Alternates h := by
  intro q
  rw [← downs_half (rfl : q.1 = q.1)]
  exact hboth q.1 q

/-- A faithful half is down where the word seen says so. -/
theorem Account.Faithful.pressed_eq {a : Account} {q : Pos} (ha : a.Faithful q.1)
    (hq : q.2 < 24) : pressed a.edges q = (a.word q.1).getLsbD q.2 := by
  rw [← ha.shows q.2 hq, pressed, pressed, downs_half rfl]

/-- The keyboard state is intact, and each code in its slots is the code that a switch
which is down was pressed with. -/
def ShowsHeld (a : Account) (hid : Except Fault Hid) : Prop :=
  ∃ hid', hid = .ok hid' ∧ ∀ code ∈ hid'.kbd.keysState.toList, code ≠ 0 →
    ∃ q : Pos, q.2 < 24 ∧ (a.word q.1).getLsbD q.2 = true ∧ lastPress a.edges q = some code

/-- If the event is a call of `call_key_report`: its releases carry the codes of their
presses, and at most six plain switches are down at each stage of it. -/
def Firmware.KeysInOrder {κ : Type u} (a : Account) (fw : Firmware κ) : Event κ → Prop
  | .turn _ => fw.reporting = true →
      ReleasesMatch (· ∈ plainPositions) (a.edges ++ fw.poll.edges fw.kbds.keystates) ∧
        Room a.edges (fw.poll.edges fw.kbds.keystates)
  | _ => True

/-- The bag of held codes, read off the slots. -/
theorem Holds.showsHeld {a : Account} {hid : Except Fault Hid} (hh : Holds a.edges hid)
    (hfaithful : ∀ lOrR, a.Faithful lOrR) : ShowsHeld a hid := by
  obtain ⟨hid', hok, hkeys⟩ := hh
  refine ⟨hid', hok, ?_⟩
  intro code hmem hne
  have hcode : code ∈ heldCodes a.edges := by
    rw [← hkeys]
    exact mem_bag.mpr ⟨hmem, hne⟩
  obtain ⟨tag, htag, hget⟩ := Multiset.mem_map.mp (Multiset.mem_filter.mp hcode).1
  obtain ⟨q, hq, rfl⟩ := Multiset.mem_map.mp htag
  obtain ⟨hS, hdown⟩ := mem_held.mp (Finset.mem_val.mp hq)
  have hpos := (mem_plainPositions.mp hS).1
  refine ⟨q, hpos, ?_, ?_⟩
  · rw [← (hfaithful q.1).pressed_eq hpos, hdown]
  · cases hlast : lastPress a.edges q with
    | none =>
      rw [hlast] at hget
      exact absurd hget.symm hne
    | some c =>
      rw [hlast] at hget
      exact congrArg some hget

/-- The invariant behind it: both halves faithful, the slots holding the held keys. -/
structure KeysHeld {κ : Type u} (s : Firmware κ × Account) : Prop where
  faithful : ∀ lOrR, s.2.Faithful lOrR
  holds : Holds s.2.edges s.1.hid

theorem KeysHeld.step {κ : Type u} {sendErr : Nat → Int} {s t : Firmware κ × Account}
    {e : Firmware.Event κ} (hs : KeysHeld s) (hagree : ∀ lOrR, s.1.Agrees s.2 lOrR e)
    (horder : s.1.KeysInOrder s.2 e) (ht : (accounting κ sendErr).step s e = some t) :
    KeysHeld t := by
  obtain ⟨hstep, hacc⟩ := accounting_step ht
  have hfaithful : ∀ lOrR, t.2.Faithful lOrR := by
    intro lOrR
    rw [hacc, Firmware.nextAccount_faithful_iff (hs.faithful lOrR)]
    exact hagree lOrR
  refine ⟨hfaithful, ?_⟩
  rw [hstep.hid, hacc]
  cases e with
  | turn pins =>
    rw [Firmware.nextHid, Firmware.nextAccount]
    by_cases hrep : s.1.reporting = true
    · rw [if_pos hrep, if_pos hrep]
      have halt : Alternates (s.2.edges ++ s.1.poll.edges s.1.kbds.keystates) := by
        refine alternates_of_halves ?_
        intro lOrR
        have hhalf := (hfaithful lOrR).alternates
        rw [hacc, Firmware.nextAccount, if_pos hrep] at hhalf
        exact hhalf
      obtain ⟨hmatch, hroom⟩ := horder hrep
      exact callKeyReport_holds sendErr s.1.connMode hs.holds halt hmatch hroom
    · rw [if_neg hrep, if_neg hrep]
      exact hs.holds
  | _ => exact hs.holds

/-- **No stray codes**: the slot table shows no switch that is up. -/
theorem slots_show_held_keys {κ : Type u} (sendErr : Nat → Int) (es : List (Firmware.Event κ))
    (hruns : (accounting κ sendErr).Along
      (fun s e _ => (∀ lOrR, s.1.Agrees s.2 lOrR e) ∧ s.1.KeysInOrder s.2 e) es) :
    (accounting κ sendErr).Always (fun s => ShowsHeld s.2 s.1.hid) es := by
  refine Machine.AlwaysFrom.mono (P := KeysHeld) ?_ fun s hs => hs.holds.showsHeld hs.faithful
  exact Machine.AlwaysFrom.of_inv ⟨Account.faithful_zero, holds_nil⟩ hruns
    fun s e t hs hC ht => hs.step hC.1 hC.2 ht

/-- **Right edges**: they alternate and add up to the word of the last call exactly on
the runs in which each call finds the whole difference to the word of the call before
it, and then no stray code stays in the slots; a run whose turns in pairing mode find
an empty mask is one. No change is dispatched twice on any run. -/
theorem right_edges_faithful_iff {κ : Type u} (sendErr : Nat → Int)
    (es : List (Firmware.Event κ)) :
    ((accounting κ sendErr).Always (fun s => s.2.Faithful false) es ↔
      (accounting κ sendErr).Along (fun s e _ => s.1.Agrees s.2 false e) es) ∧
    ((accounting κ sendErr).Along (fun s e _ => s.1.MaskKept e) es →
      (accounting κ sendErr).Along (fun s e _ => s.1.Agrees s.2 false e) es) ∧
    (scanLogging κ sendErr).Always (fun s => s.2.AtMostOnce) es ∧
    ((accounting κ sendErr).Along
        (fun s e _ => (∀ lOrR, s.1.Agrees s.2 lOrR e) ∧ s.1.KeysInOrder s.2 e) es →
      (accounting κ sendErr).Always (fun s => ShowsHeld s.2 s.1.hid) es) := by
  refine ⟨accounting_faithful_iff sendErr false es, ?_,
    dispatched_at_most_once sendErr es, slots_show_held_keys sendErr es⟩
  intro hmasks
  refine Machine.AlongFrom.of_inv (I := Firmware.RightKept) ?_ hmasks
    fun s e t hs hmask ht => ⟨hs.step hmask ht, hs.agrees e⟩
  show Poll.zero.dispatchedRight.setWidth 24 = (0 : Word).setWidth 24
  decide

/-- Y is held when the host disconnects and let go in pairing mode. The host comes back,
and the key is still in the table after the next call. -/
theorem right_key_survives_pairing :
    let es : List (Firmware.Event Nat) :=
      [.connected 1 0 .peripheral 0, .securityChanged 1 0, .turn (pinsOf 1), .turn (pinsOf 1),
        .disconnected 1 .peripheral 0, .turn (pinsOf 0), .turn (pinsOf 0),
        .connected 1 0 .peripheral 0, .securityChanged 1 0, .turn (pinsOf 0)]
    ¬(accounting Nat fun _ => 0).Always (fun s => s.2.Faithful false) es ∧
    ∃ s, (accounting Nat fun _ => 0).run es = some s ∧ s.2.right = 0 ∧
      s.1.hid.map (fun hid => hid.kbd.keysState) = .ok #v[keyCode 0 (false, 0), 0, 0, 0, 0, 0] ∧
        keyCode 0 (false, 0) ≠ 0 := by
  refine ⟨by decide +kernel, _, rfl, ?_⟩
  decide +kernel

end BleKeyboard
