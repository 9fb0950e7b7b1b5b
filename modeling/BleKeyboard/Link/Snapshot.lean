import BleKeyboard.Firmware.InCall

/-!
# One left word per call

`call_key_report` computes the mask of changed switches from one read of `kbds.keystates`,
the direction of each change from another, and the word it compares with next time from a
third. The right half is read once, by `get_keystate`, and kept in `last_keystate_right`.

`snapshot_consistent_iff`: on return `last_keystate_left` has moved by exactly the edges
dispatched, each in the direction that moves it, exactly on the runs in which all reads
after the mask see the word that the mask stands for.
-/

namespace BleKeyboard

open Base

namespace InCall

/-- The left positions dispatched so far. -/
def leftPositions (s : InCall) : List Nat := (s.calls.filter Call.lOrR).map Call.position

/-- `last_keystate_left` is the old word with the dispatched left positions toggled. -/
def Toggled (old : Word) (s : InCall) : Prop :=
  ∀ p < 32, s.poll.lastKeystateLeft.getLsbD p = (old.getLsbD p != decide (p ∈ s.leftPositions))

/-- Every dispatched left edge has the direction that toggles its position. -/
def Directed (old : Word) (s : InCall) : Prop :=
  ∀ c ∈ s.calls, c.lOrR = true → c.down = !old.getLsbD c.position

/-- Nothing has been lost: what is dispatched is what the word has moved by. -/
def Consistent (old : Word) (s : InCall) : Prop := s.Toggled old ∧ s.Directed old

instance (old : Word) (s : InCall) : Decidable (s.Consistent old) :=
  inferInstanceAs (Decidable ((∀ p < 32, _) ∧ ∀ c ∈ s.calls, _))

/-- The left word that the mask of changes stands for. -/
def snapshot (s : InCall) : Word := s.poll.lastKeystateLeft ^^^ (s.hasChanged &&& 0xffffff#32)

/-- A read sees the snapshot: the test of a changed position in its bit, the store in all
bits. -/
def ReadsSnapshot (s : InCall) : Pc → Prop
  | .leftTest i => s.kbds.keystates.getLsbD (i - 1) = s.snapshot.getLsbD (i - 1)
  | .store => s.kbds.keystates = s.snapshot
  | _ => True

instance (s : InCall) : ∀ pc, Decidable (s.ReadsSnapshot pc)
  | .leftTest _ | .store => inferInstanceAs (Decidable (_ = _))
  | .start | .illegal | .printIllegal | .mask | .layer | .layerBoth | .layerOne | .left
  | .leftTurn _ | .leftPrint _ | .leftReport _ _ | .rightTurn _ | .done =>
    inferInstanceAs (Decidable True)

/-- The event is a notification, or an access that sees the snapshot if it reads. -/
def SeesSnapshot (s : InCall) : Event → Prop
  | .step => s.ReadsSnapshot s.pc
  | .notified _ => True

instance (s : InCall) : ∀ e, Decidable (s.SeesSnapshot e)
  | .notified _ => inferInstanceAs (Decidable True)
  | .step => inferInstanceAs (Decidable (s.ReadsSnapshot s.pc))

/-! ## Where a call can be -/

/-- Before the loop over the left half. -/
def Prelude : Pc → Prop
  | .start | .illegal | .printIllegal | .mask | .layer | .layerBoth | .layerOne | .left => True
  | _ => False

/-- Before turn `i` of the left loop: the changed positions below have been dispatched. -/
def Visited (old : Word) (i : Nat) (s : InCall) : Prop :=
  s.poll.lastKeystateLeft = old ∧
    ∀ p, p ∈ s.leftPositions ↔ p + 1 < i ∧ s.hasChanged.getLsbD p = true

/-- What holds at every point of a call. -/
def Reached (old : Word) (s : InCall) : Prop :=
  match s.pc with
  | .leftTurn i => s.Visited old i ∧ i ≤ 25
  | .leftPrint i | .leftTest i | .leftReport i _ =>
    s.Visited old i ∧ 0 < i ∧ i < 25 ∧ s.hasChanged.getLsbD (i - 1) = true
  | .store => s.Visited old 25
  | .rightTurn _ | .done => True
  | _ => s.poll.lastKeystateLeft = old ∧ s.calls = []

/-- What is to hold at every point of a call. -/
def SoFar (old : Word) (s : InCall) : Prop :=
  s.Directed old ∧
    match s.pc with
    | .leftReport i down => down = !old.getLsbD (i - 1)
    | .rightTurn _ | .done => s.Toggled old
    | _ => True

section

variable (sendErr : Nat → Int) (modes : ConnModes) (s : InCall) {c : Call}

theorem leftPositions_report_left (hc : c.lOrR = true) :
    (s.report sendErr modes c).leftPositions = s.leftPositions ++ [c.position] := by
  rw [leftPositions, report, List.filter_append, List.map_append, leftPositions]
  simp [hc]

theorem leftPositions_report_right (hc : c.lOrR = false) :
    (s.report sendErr modes c).leftPositions = s.leftPositions := by
  rw [leftPositions, report, List.filter_append, List.map_append, leftPositions]
  simp [hc]

theorem directed_report {old : Word} : (s.report sendErr modes c).Directed old ↔
    s.Directed old ∧ (c.lOrR = true → c.down = !old.getLsbD c.position) := by
  unfold Directed
  rw [show (s.report sendErr modes c).calls = s.calls ++ [c] from rfl]
  simp [or_imp, forall_and]

end

variable {sendErr : Nat → Int} {modes : ConnModes} {old : Word} {s t : InCall}

/-- A step before the left loop dispatches nothing, and leads on or to a loop. -/
theorem advance_prelude (hpc : Prelude s.pc) (hstep : s.advance sendErr modes = some t) :
    t.poll.lastKeystateLeft = s.poll.lastKeystateLeft ∧ t.calls = s.calls ∧
      (Prelude t.pc ∨ t.pc = .leftTurn 0 ∨ t.pc = .rightTurn 0 ∨ t.pc = .done) := by
  obtain ⟨kbds, poll, hasChanged, hid, calls, pc⟩ := s
  cases pc with
  | start | illegal | layer | left =>
    obtain rfl := Option.some.inj hstep
    refine ⟨rfl, rfl, ?_⟩
    dsimp only
    split <;> simp [Prelude]
  | mask | printIllegal =>
    obtain rfl := Option.some.inj hstep
    simp [Prelude]
  | layerBoth | layerOne =>
    simp only [advance] at hstep
    split at hstep
    all_goals
      obtain rfl := Option.some.inj hstep
      simp [Prelude]
  | _ => cases hpc

/-! ## One step -/

/-- A step from a point that can be reached: nothing that is lost is regained, and nothing
is lost exactly if `sees`. -/
structure Step (old : Word) (sees : Prop) (s t : InCall) : Prop where
  reached : t.Reached old
  back : t.SoFar old → s.SoFar old
  iff : s.SoFar old → (t.SoFar old ↔ sees)

/-- A step that loses nothing. -/
theorem Step.of_iff {sees : Prop} (hreached : t.Reached old) (hiff : t.SoFar old ↔ s.SoFar old)
    (hsees : sees) : Step old sees s t :=
  ⟨hreached, hiff.mp, fun h => iff_of_true (hiff.mpr h) hsees⟩

/-- As long as nothing is dispatched, there is nothing to lose. -/
theorem soFar_of_calls_nil (hlast : s.poll.lastKeystateLeft = old) (hcalls : s.calls = [])
    (hpc : Prelude s.pc ∨ s.pc = .leftTurn 0 ∨ s.pc = .rightTurn 0 ∨ s.pc = .done) :
    s.SoFar old := by
  have hdirected : s.Directed old := by
    intro c hc
    rw [hcalls] at hc
    cases hc
  have htoggled : s.Toggled old := by
    intro p _
    rw [hlast, leftPositions, hcalls]
    simp
  obtain ⟨kbds, poll, hasChanged, hid, calls, pc⟩ := s
  refine ⟨hdirected, ?_⟩
  rcases hpc with hpc | rfl | rfl | rfl
  · cases pc with
    | leftReport i down | rightTurn i | done => cases hpc
    | _ => trivial
  · trivial
  · exact htoggled
  · exact htoggled

theorem step_prelude (hpc : Prelude s.pc) (hreached : s.Reached old)
    (hstep : s.advance sendErr modes = some t) : Step old (s.SeesSnapshot .step) s t := by
  obtain ⟨hlast, hcalls, hnext⟩ := advance_prelude hpc hstep
  have hsees : s.SeesSnapshot .step := by
    show s.ReadsSnapshot s.pc
    cases h : s.pc with
    | leftTest i | store => exact absurd hpc (h ▸ id)
    | _ => trivial
  have hstart : s.poll.lastKeystateLeft = old ∧ s.calls = [] := by
    obtain ⟨kbds, poll, hasChanged, hid, calls, pc⟩ := s
    cases pc with
    | leftTurn i | leftPrint i | leftTest i | leftReport i down | store | rightTurn i | done =>
      cases hpc
    | _ => exact hreached
  rw [hstart.1] at hlast
  rw [hstart.2] at hcalls
  refine .of_iff ?_ (iff_of_true (soFar_of_calls_nil hlast hcalls hnext)
    (soFar_of_calls_nil hstart.1 hstart.2 (.inl hpc))) hsees
  obtain ⟨kbds, poll, hasChanged, hid, calls, pc⟩ := t
  rcases hnext with hnext | rfl | rfl | rfl
  · cases pc with
    | leftTurn i | leftPrint i | leftTest i | leftReport i down | store | rightTurn i | done =>
      cases hnext
    | _ => exact ⟨hlast, hcalls⟩
  · refine ⟨⟨hlast, ?_⟩, Nat.zero_le _⟩
    intro p
    rw [leftPositions, show calls = [] from hcalls]
    simp
  · trivial
  · trivial

theorem step_leftTurn {i : Nat} (hpc : s.pc = .leftTurn i) (hreached : s.Reached old)
    (hstep : s.advance sendErr modes = some t) : Step old (s.SeesSnapshot .step) s t := by
  obtain ⟨kbds, poll, hasChanged, hid, calls, pc⟩ := s
  obtain rfl : pc = .leftTurn i := hpc
  obtain ⟨⟨hlast, hvisited⟩, hi⟩ := hreached
  simp only [advance] at hstep
  split at hstep
  · next hlt =>
    obtain rfl := Option.some.inj hstep
    by_cases hchanged : hasChanged &&& shl1 (BitVec.ofNat 32 i - 1#32) ≠ 0#32
    · simp only [if_pos hchanged]
      exact .of_iff ⟨⟨hlast, hvisited⟩, ((test_ne_zero_iff _ hlt).mp hchanged).1, hlt,
        ((test_ne_zero_iff _ hlt).mp hchanged).2⟩ Iff.rfl trivial
    · simp only [if_neg hchanged]
      refine .of_iff ⟨⟨hlast, fun p => (hvisited p).trans ?_⟩, hlt⟩ Iff.rfl trivial
      -- position `i - 1` has not changed
      constructor
      · exact fun h => ⟨by omega, h.2⟩
      · rintro ⟨hp, hbit⟩
        refine ⟨?_, hbit⟩
        by_contra hge
        obtain rfl : i = p + 1 := by omega
        exact hchanged ((test_ne_zero_iff _ hlt).mpr ⟨Nat.succ_pos _, hbit⟩)
  · next hge =>
    obtain rfl := Option.some.inj hstep
    obtain rfl : i = 25 := by omega
    exact .of_iff ⟨hlast, hvisited⟩ Iff.rfl trivial

theorem step_leftTest {i : Nat} (hpc : s.pc = .leftTest i) (hreached : s.Reached old)
    (hstep : s.advance sendErr modes = some t) : Step old (s.SeesSnapshot .step) s t := by
  obtain ⟨kbds, poll, hasChanged, hid, calls, pc⟩ := s
  obtain rfl : pc = .leftTest i := hpc
  obtain ⟨⟨hlast, hvisited⟩, hpos, hlt, hbit⟩ := hreached
  obtain rfl := Option.some.inj hstep
  refine ⟨⟨⟨hlast, hvisited⟩, hpos, hlt, hbit⟩, fun h => ⟨h.1, trivial⟩, ?_⟩
  intro hsofar
  have hdown : decide (kbds.keystates &&& shl1 (BitVec.ofNat 32 i - 1#32) ≠ 0#32)
      = kbds.keystates.getLsbD (i - 1) := by
    rw [Bool.eq_iff_iff, decide_eq_true_iff, test_ne_zero_iff _ hlt, and_iff_right hpos]
  -- the snapshot has the other bit at a changed position
  have hsnapshot : (poll.lastKeystateLeft ^^^ (hasChanged &&& 0xffffff#32)).getLsbD (i - 1)
      = !old.getLsbD (i - 1) := by
    have hlow : (0xffffff#32).getLsbD (i - 1) = true := by
      have hall : ∀ p < 24, (0xffffff#32).getLsbD p = true := by decide
      exact hall (i - 1) (by omega)
    have hlast : poll.lastKeystateLeft = old := hlast
    have hbit : hasChanged.getLsbD (i - 1) = true := hbit
    rw [BitVec.getLsbD_xor, BitVec.getLsbD_and, hlow, hbit, hlast, Bool.and_self, Bool.xor_true]
  show (_ ∧ decide _ = _) ↔ kbds.keystates.getLsbD (i - 1)
    = (poll.lastKeystateLeft ^^^ (hasChanged &&& 0xffffff#32)).getLsbD (i - 1)
  rw [hdown, hsnapshot]
  exact and_iff_right hsofar.1

theorem step_leftReport {i : Nat} {down : Bool} (hpc : s.pc = .leftReport i down)
    (hreached : s.Reached old) (hstep : s.advance sendErr modes = some t) :
    Step old (s.SeesSnapshot .step) s t := by
  obtain ⟨kbds, poll, hasChanged, hid, calls, pc⟩ := s
  obtain rfl : pc = .leftReport i down := hpc
  obtain ⟨⟨hlast, hvisited⟩, hpos, hlt, hbit⟩ := hreached
  obtain rfl := Option.some.inj hstep
  have hposition := toNat_position hpos hlt
  refine .of_iff ⟨⟨hlast, ?_⟩, hlt⟩ ?_ trivial
  · intro p
    have hmem : p ∈ leftPositions ⟨kbds, poll, hasChanged, hid, calls, .leftReport i down⟩ ++
        [(BitVec.ofNat 32 i - 1#32).toNat] ↔ p + 1 < i + 1 ∧ hasChanged.getLsbD p = true := by
      rw [List.mem_append, List.mem_singleton, hvisited p, hposition]
      constructor
      · rintro (h | rfl)
        · exact ⟨by omega, h.2⟩
        · exact ⟨by omega, hbit⟩
      · rintro ⟨hp, hchanged⟩
        by_cases hpi : p = i - 1
        · exact .inr hpi
        · exact .inl ⟨by omega, hchanged⟩
    exact (iff_of_eq (congrArg (p ∈ ·) (leftPositions_report_left sendErr modes
      ⟨kbds, poll, hasChanged, hid, calls, .leftReport i down⟩ rfl))).trans hmem
  · refine (and_iff_left trivial).trans ((directed_report sendErr modes
      ⟨kbds, poll, hasChanged, hid, calls, .leftReport i down⟩).trans ?_)
    show _ ∧ (true = true → down = !old.getLsbD (BitVec.ofNat 32 i - 1#32).toNat) ↔ _
    rw [hposition, forall_prop_of_true rfl]
    exact Iff.rfl

/-- Under the mask, the snapshot is the old word with the changed positions toggled. -/
theorem getLsbD_snapshot {p : Nat} (hp : p < 32) : s.snapshot.getLsbD p
    = (s.poll.lastKeystateLeft.getLsbD p != (decide (p < 24) && s.hasChanged.getLsbD p)) := by
  have hlow : (0xffffff#32).getLsbD p = decide (p < 24) := by
    have hall : ∀ p < 32, (0xffffff#32).getLsbD p = decide (p < 24) := by decide
    exact hall p hp
  rw [snapshot, BitVec.getLsbD_xor, BitVec.getLsbD_and, hlow, Bool.and_comm]

theorem step_store (hpc : s.pc = .store) (hreached : s.Reached old)
    (hstep : s.advance sendErr modes = some t) : Step old (s.SeesSnapshot .step) s t := by
  obtain ⟨kbds, poll, hasChanged, hid, calls, pc⟩ := s
  obtain rfl : pc = .store := hpc
  obtain ⟨hlast, hvisited⟩ := hreached
  obtain rfl := Option.some.inj hstep
  -- every changed position has been dispatched
  have hdispatched : ∀ p, decide (p ∈ leftPositions ⟨kbds, poll, hasChanged, hid, calls, .store⟩)
      = (decide (p < 24) && hasChanged.getLsbD p) := by
    intro p
    rw [Bool.eq_iff_iff, decide_eq_true_iff, hvisited p, Bool.and_eq_true, decide_eq_true_iff]
    exact and_congr_left fun _ => by omega
  have htoggled : (∀ p < 32, kbds.keystates.getLsbD p
      = (old.getLsbD p !=
        decide (p ∈ leftPositions ⟨kbds, poll, hasChanged, hid, calls, .store⟩))) ↔
      kbds.keystates = snapshot ⟨kbds, poll, hasChanged, hid, calls, .store⟩ := by
    constructor
    · intro h
      refine BitVec.eq_of_getLsbD_eq fun p hp => ?_
      rw [getLsbD_snapshot hp, h p hp, hdispatched]
      exact congrArg (fun w : Word => w.getLsbD p != _) hlast.symm
    · intro h p hp
      rw [hdispatched, h, getLsbD_snapshot hp]
      exact congrArg (fun w : Word => w.getLsbD p != _) hlast
  refine ⟨trivial, fun h => ⟨h.1, trivial⟩, fun hsofar => ?_⟩
  exact (and_iff_right hsofar.1).trans htoggled

theorem step_rightTurn {i : Nat} (hpc : s.pc = .rightTurn i)
    (hstep : s.advance sendErr modes = some t) : Step old (s.SeesSnapshot .step) s t := by
  obtain ⟨kbds, poll, hasChanged, hid, calls, pc⟩ := s
  obtain rfl : pc = .rightTurn i := hpc
  simp only [advance] at hstep
  split at hstep
  · cases hturn : scanTurn poll.rightKeystateChange poll.lastKeystateRight false i with
    | none =>
      rw [hturn] at hstep
      obtain rfl := Option.some.inj hstep
      exact .of_iff trivial Iff.rfl trivial
    | some c =>
      rw [hturn] at hstep
      obtain rfl := Option.some.inj hstep
      -- an edge of the right half is none of the left
      have hright : c.lOrR = false := by
        rw [scanTurn, Option.ite_none_right_eq_some] at hturn
        exact (Option.some.inj hturn.2) ▸ rfl
      refine .of_iff trivial (and_congr ?_ ?_) trivial
      · refine (directed_report sendErr modes
          ⟨kbds, poll, hasChanged, hid, calls, .rightTurn i⟩).trans (and_iff_left ?_)
        exact fun hleft => absurd (hright.symm.trans hleft) Bool.false_ne_true
      · refine forall_congr' fun p => forall_congr' fun _ => iff_of_eq ?_
        exact congrArg (fun ps : List Nat => _ = (_ != decide (p ∈ ps)))
          (leftPositions_report_right sendErr modes
            ⟨kbds, poll, hasChanged, hid, calls, .rightTurn i⟩ hright)
  · obtain rfl := Option.some.inj hstep
    exact .of_iff trivial Iff.rfl trivial

/-- **One access**, or one notification. -/
theorem step_spec (hreached : s.Reached old) {e : Event} (hstep : s.react sendErr modes e = some t) :
    Step old (s.SeesSnapshot e) s t := by
  cases e with
  | notified data =>
    obtain ⟨r, -, rfl⟩ := Option.map_eq_some_iff.mp hstep
    exact .of_iff hreached Iff.rfl trivial
  | step =>
    cases hpc : s.pc with
    | leftTurn i => exact step_leftTurn hpc hreached hstep
    | leftPrint i =>
      obtain ⟨kbds, poll, hasChanged, hid, calls, pc⟩ := s
      obtain rfl : pc = .leftPrint i := hpc
      obtain rfl := Option.some.inj hstep
      exact .of_iff hreached Iff.rfl trivial
    | leftTest i => exact step_leftTest hpc hreached hstep
    | leftReport i down => exact step_leftReport hpc hreached hstep
    | store => exact step_store hpc hreached hstep
    | rightTurn i => exact step_rightTurn hpc hstep
    | done =>
      rw [react, advance, hpc] at hstep
      cases hstep
    | _ =>
      refine step_prelude ?_ hreached hstep
      rw [hpc]
      trivial

end InCall

/-- **Snapshot consistency**: on return, `last_keystate_left` is the old word with exactly the
dispatched left positions toggled, each dispatched in the direction that toggles it, if and
only if all reads after the mask agree with the word that the mask stands for. -/
theorem snapshot_consistent_iff (sendErr : Nat → Int) (modes : ConnModes) (kbds : KbdsClient)
    (poll : Poll) (hasChanged : Word) (hid : Except Fault Hid) {es : List InCall.Event} {t : InCall}
    (hrun : (inCall sendErr modes kbds poll hasChanged hid).run es = some t) (hdone : t.pc = .done) :
    t.Consistent poll.lastKeystateLeft ↔
      (inCall sendErr modes kbds poll hasChanged hid).Along (fun s e _ => s.SeesSnapshot e) es := by
  have hinit : (InCall.enter kbds poll hasChanged hid).Reached poll.lastKeystateLeft := ⟨rfl, rfl⟩
  have hreached : ∀ s e t, InCall.Reached poll.lastKeystateLeft s →
      s.react sendErr modes e = some t → t.Reached poll.lastKeystateLeft :=
    fun s e t hs hstep => (InCall.step_spec hs hstep).reached
  have hlast : t.Consistent poll.lastKeystateLeft ↔ t.SoFar poll.lastKeystateLeft := by
    rw [InCall.Consistent, InCall.SoFar, hdone]
    exact and_comm
  rw [hlast, ← Machine.alwaysFrom_iff_last hinit hreached
    (fun s e t hs hstep => (InCall.step_spec hs hstep).back) hrun]
  exact Machine.alwaysFrom_iff hinit (InCall.soFar_of_calls_nil rfl rfl (.inl trivial)) hreached
    fun s e t hs hsofar hstep => (InCall.step_spec hs hstep).iff hsofar

/-- The call on a key that is notified, with nothing coming in between. -/
theorem quiet_snapshot_consistent :
    let call := inCall (fun _ => 0) (Vector.replicate hidsMaxClientCount ⟨none, false⟩)
      KbdsClient.clientInit Poll.zero 0 (.ok ⟨.zero, []⟩)
    let es : List InCall.Event := .notified (some [1, 0, 0, 0]) :: List.replicate 63 .step
    ∃ t, call.run es = some t ∧ t.pc = .done ∧ t.poll.lastKeystateLeft = 1 ∧ t.Consistent 0 := by
  intro call es
  have hsees : call.Along (fun s e _ => s.SeesSnapshot e) es := by decide +kernel
  have hreturns : (call.run es).isSome = true := by decide +kernel
  have hlast : ∀ h, ((call.run es).get h).pc = .done ∧
      ((call.run es).get h).poll.lastKeystateLeft = 1 := by decide +kernel
  obtain ⟨hdone, hstored⟩ := hlast hreturns
  have hrun : call.run es = some ((call.run es).get hreturns) := (Option.some_get _).symm
  exact ⟨_, hrun, hdone, hstored, (snapshot_consistent_iff _ _ _ _ _ _ hrun hdone).mpr hsees⟩

/-- While the loop looks at the key that has changed, the next one is notified: the store takes
the new word for what has been dispatched, and the next call finds no edge. -/
theorem notified_edge_lost :
    let call := inCall (fun _ => 0) (Vector.replicate hidsMaxClientCount ⟨none, false⟩)
      KbdsClient.clientInit Poll.zero 0 (.ok ⟨.zero, []⟩)
    let es : List InCall.Event :=
      .notified (some [1, 0, 0, 0]) :: List.replicate 12 .step ++
        .notified (some [3, 0, 0, 0]) :: List.replicate 51 .step
    ∃ t, call.run es = some t ∧ t.pc = .done ∧ t.calls = [⟨true, true, 0⟩] ∧
      t.poll.lastKeystateLeft = 3 ∧ ¬t.Consistent 0 ∧ t.poll.calls t.kbds.keystates = [] := by
  refine ⟨_, rfl, ?_⟩
  decide +kernel

end BleKeyboard
