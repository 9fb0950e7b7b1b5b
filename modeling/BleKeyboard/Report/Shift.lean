import BleKeyboard.Report.Layers

/-!
# The shift bit

The Left Shift bit of the modifier byte has up to eleven users: the shift key itself, and
on layer 2 the ten keys of row 0 that carry the shift along. They share the bit without a
count, and a release looks at the layer selected by then: "hard coding the fix for the
second layer shift problem".

- `createReports_shift`: after a call the bit is the direction of its last shift edge, and
  what it was if there was none;
- `shift_bit_iff_shiftKept`: the bit says whether a user of the shift is down exactly on
  the runs in which no call releases the shift while a user of it stays down, or loses the
  last user without a shift edge.
-/

namespace BleKeyboard

open Base
open Base.Edge

/-! ## Shift edges -/

/-- The left shift key. -/
def leftShift : Pos := (true, 12)

/-- The keys of row 0 that take the implicit shift. -/
def takesShift (q : Pos) : Bool :=
  q.2 / 6 == 0 && ((q.1 && decide (q.2 % 6 > 0)) || (!q.1 && decide (q.2 % 6 < 5)))

/-- Left columns 1 to 5, right columns 0 to 4. -/
example : ((List.range 48).map posAt).filter takesShift
    = [(true, 1), (true, 2), (true, 3), (true, 4), (true, 5), (false, 0), (false, 1), (false, 2),
      (false, 3), (false, 4)] := by decide

/-- An edge of this switch in this layer moves the shift bit. -/
def movesShift (layer : Fin 4) (q : Pos) : Bool :=
  q == leftShift || (layer == 2 && takesShift q)

/-- The masks of the modifiers, on every layer: only Left Shift has the shift bit. -/
theorem keyCode_modifier_shift (layer : Fin 4) {q : Pos} (hq : q.2 < 24)
    (hmod : isModChr q.1 q.2 = true) : (keyCode layer q).getLsbD 1 = movesShift layer q := by
  obtain ⟨lOrR, i⟩ := q
  have hall : ∀ layer : Fin 4, ∀ lOrR, ∀ i : Fin 24, isModChr lOrR i = true →
      (keyCode layer (lOrR, i.val)).getLsbD 1 = movesShift layer (lOrR, i.val) := by
    decide +kernel
  exact hall layer lOrR ⟨i, hq⟩ hmod

/-- What one edge does to the shift bit. -/
theorem ctrlAfter_shift (layer : Fin 4) {c : Call} (hpos : c.position < 24) (ctrl : Byte) :
    (ctrlAfter layer c ctrl).getLsbD 1
      = if movesShift layer c.pos then c.down else ctrl.getLsbD 1 := by
  unfold ctrlAfter
  by_cases hlayer : isLayerKey c.pos = true
  · have hnone : ∀ layer : Fin 4, ∀ lOrR, ∀ i : Fin 24, isLayerKey (lOrR, i.val) = true →
        movesShift layer (lOrR, i.val) = false := by decide
    rw [if_pos hlayer, show movesShift layer c.pos = false from
      hnone layer c.lOrR ⟨c.position, hpos⟩ hlayer]
    rfl
  · rw [if_neg hlayer]
    by_cases hmod : isModChr c.lOrR c.position = true
    · rw [if_pos hmod, getLsbD_setOrClearModByte _ _ _ (by decide),
        keyCode_modifier_shift layer (q := c.pos) hpos hmod]
    · -- a plain key: the implicit shift or nothing
      rw [if_neg hmod]
      have hne : (c.pos == leftShift) = false := by
        rw [beq_eq_false_iff_ne]
        intro heq
        obtain ⟨hl, hp⟩ := Prod.mk.inj heq
        exact hmod (by rw [hl, hp]; rfl)
      have hcond : movesShift layer c.pos
          = (layer == 2 && c.position / 6 == 0 && ((c.lOrR && decide (c.position % 6 > 0))
            || (!c.lOrR && decide (c.position % 6 < 5)))) := by
        rw [movesShift, hne, Bool.false_or, takesShift, ← Bool.and_assoc]
        rfl
      rw [hcond]
      unfold implicitShift
      dsimp only
      split
      · rw [getLsbD_setOrClearModByte _ _ _ (by decide)]
        rfl
      · rfl

section

variable {sendErr : Nat → Int} {modes : ConnModes} {layer : Fin 4}

/-- **The shift bit after a call**: the direction of the last shift edge, if there was one. -/
theorem createReports_shift {cs : List Call} {hid hid' : Hid}
    (hok : createReports sendErr modes layer cs hid = .ok hid') :
    hid'.kbd.ctrlKeysState.getLsbD 1 = ((cs.filter fun c => movesShift layer c.pos).getLast?.map
      Call.down).getD (hid.kbd.ctrlKeysState.getLsbD 1) := by
  induction cs generalizing hid with
  | nil =>
    obtain rfl := Except.ok.inj hok
    rfl
  | cons c cs ih =>
    rw [createReports, List.foldlM_cons] at hok
    obtain ⟨hid₁, hone, hrest⟩ := exceptBind_eq_ok hok
    rw [ih hrest, (createReport_after hone).1,
      ctrlAfter_shift layer (position_lt_of_createReport hone)]
    by_cases hmoves : movesShift layer c.pos = true
    · rw [List.filter_cons, if_pos hmoves, if_pos hmoves, List.getLast?_cons]
      cases (cs.filter fun c => movesShift layer c.pos).getLast? <;> rfl
    · rw [List.filter_cons, if_neg hmoves, if_neg hmoves]

end

/-! ## Users of the shift -/

namespace Board

variable (b : Board) (f : Frame)

/-- A user of the shift is down: the shift key, or a key that takes the implicit shift and
was pressed on layer 2. -/
def ShiftHeld : Prop :=
  b.before leftShift = true ∨ ∃ lOrR, ∃ i < 24, takesShift (lOrR, i) = true ∧
    b.before (lOrR, i) = true ∧ b.pressLayer (lOrR, i) = 2

/-- The switches whose edges move the shift bit in this turn, in their order. -/
def shiftEdges : List Pos :=
  ((List.range 48).map posAt).filter fun q =>
    b.before q != b.after f q && movesShift (b.layer f) q

/-- If the last shift edge of this turn is a release, no user of the shift is down after
it; if there is none, not all users of the shift are let go. -/
def ShiftKept : Prop :=
  match (b.shiftEdges f).getLast? with
  | some q => b.after f q = false → ¬(b.turn f).ShiftHeld
  | none => b.ShiftHeld → (b.turn f).ShiftHeld

instance : Decidable b.ShiftHeld := inferInstanceAs (Decidable (_ ∨ ∃ _, ∃ i < 24, _))

instance : Decidable (b.ShiftKept f) := by
  unfold ShiftKept
  cases (b.shiftEdges f).getLast? <;> infer_instance

variable {b f}

theorem mem_shiftEdges {q : Pos} : q ∈ b.shiftEdges f ↔
    q.2 < 24 ∧ b.before q ≠ b.after f q ∧ movesShift (b.layer f) q = true := by
  unfold shiftEdges
  rw [List.mem_filter, Bool.and_eq_true, bne_iff_ne, List.mem_map]
  refine and_congr_left' ?_
  constructor
  · rintro ⟨i, hi, rfl⟩
    exact posAt_lt (List.mem_range.mp hi)
  · intro hq
    refine ⟨rank q, List.mem_range.mpr ?_, posAt_rank hq⟩
    unfold rank
    split <;> omega

/-- A key that goes down in a shift edge is a user of the shift. -/
theorem shiftHeld_of_press {q : Pos} (hq : q ∈ b.shiftEdges f) (hdown : b.after f q = true) :
    (b.turn f).ShiftHeld := by
  obtain ⟨hpos, hne, hmoves⟩ := mem_shiftEdges.mp hq
  rw [movesShift, Bool.or_eq_true, Bool.and_eq_true] at hmoves
  rcases hmoves with hshift | ⟨hlayer, htakes⟩
  · exact .inl (eq_of_beq hshift ▸ hdown)
  · refine .inr ⟨q.1, q.2, hpos, htakes, hdown, ?_⟩
    have hup : b.before q = false := by
      rw [hdown] at hne
      exact Bool.eq_false_of_not_eq_true hne
    show (if !b.before q && b.after f q then b.layer f else b.pressLayer q) = 2
    rw [hup, hdown]
    exact eq_of_beq hlayer

/-- Without a shift edge, no key becomes a user of the shift. -/
theorem shiftHeld_of_turn (hnone : b.shiftEdges f = []) (hheld : (b.turn f).ShiftHeld) :
    b.ShiftHeld := by
  have hsame : ∀ q : Pos, q.2 < 24 → movesShift (b.layer f) q = true →
      b.before q = b.after f q := by
    intro q hq hmoves
    by_contra hne
    have hmem := mem_shiftEdges.mpr ⟨hq, hne, hmoves⟩
    rw [hnone] at hmem
    cases hmem
  rcases hheld with hshift | ⟨lOrR, i, hi, htakes, hdown, hpress⟩
  · exact .inl ((hsame leftShift (by decide) rfl).trans hshift)
  · have hdown : b.after f (lOrR, i) = true := hdown
    have hpress : (if !b.before (lOrR, i) && b.after f (lOrR, i) then b.layer f
      else b.pressLayer (lOrR, i)) = 2 := hpress
    by_cases hbefore : b.before (lOrR, i) = true
    · rw [hbefore] at hpress
      exact .inr ⟨lOrR, i, hi, htakes, hbefore, hpress⟩
    · -- a press on layer 2 would have been a shift edge
      rw [Bool.eq_false_of_not_eq_true hbefore, hdown] at hpress
      have hlayer : b.layer f = 2 := hpress
      have hmoves : movesShift (b.layer f) (lOrR, i) = true := by
        rw [movesShift, hlayer, htakes]
        exact Bool.or_true _
      exact absurd ((hsame (lOrR, i) hi hmoves).trans hdown) hbefore

end Board

/-- The shift edges of a turn are those among the calls of `create_report`. -/
theorem BoardSim.filter_calls {b : Board} {h : History} {p : Poll} (hs : BoardSim b h p)
    (f : Frame) :
    (p.calls f.keystates).filter (fun c => movesShift (p.selectLayer f.keystates) c.pos)
      = (b.shiftEdges f).map fun q => ⟨b.after f q, q.1, q.2⟩ := by
  rw [p.calls_eq, Board.shiftEdges, ← hs.layer_eq f, hs.before_eq, hs.after_eq f]
  induction List.range 48 with
  | nil => rfl
  | cons i is ih =>
    rw [List.map_cons, List.filter_cons, List.filterMap_cons]
    unfold Poll.callAt at ih ⊢
    by_cases hne : p.shown (posAt i) ≠ p.seen f.keystates (posAt i)
    · rw [if_pos hne, List.filter_cons, ih, bne_iff_ne.mpr hne, Bool.true_and]
      show (if movesShift (b.layer f) (posAt i) then _ else _) = _
      split <;> rfl
    · rw [if_neg hne, bne_eq_false_iff_eq.mpr (not_not.mp hne), Bool.false_and,
        if_neg Bool.false_ne_true]
      exact ih

/-! ## Runs -/

/-- The shift bit says whether a user of the shift is down. -/
def ShiftRight (s : KeyState × History × Board) : Prop :=
  ∀ hid, s.1.hid = .ok hid → (hid.kbd.ctrlKeysState.getLsbD 1 = true ↔ s.2.2.ShiftHeld)

instance (s : KeyState × History × Board) : Decidable (ShiftRight s) :=
  match h : s.1.hid with
  | .ok hid => decidable_of_iff (hid.kbd.ctrlKeysState.getLsbD 1 = true ↔ s.2.2.ShiftHeld)
      (by simp [ShiftRight, h])
  | .error _ => .isTrue (by simp [ShiftRight, h])

/-- The reporting turns that C gives a meaning: none leaves an array. -/
def definedLoop (sendErr : Nat → Int) : Machine (KeyState × History × Board) Frame :=
  (boardLoop sendErr).under fun s f => (keyTurn sendErr s.1 f).hid.isOk = true

/-- **Exactness of one turn**. -/
theorem shiftRight_turn_iff {sendErr : Nat → Int} {s : KeyState × History × Board} {f : Frame}
    (hs : BoardSim s.2.2 s.2.1 s.1.poll) (hright : ShiftRight s)
    (hok : (keyTurn sendErr s.1 f).hid.isOk = true) :
    ShiftRight (keyTurn sendErr s.1 f, s.2.1 ++ s.1.poll.edges f.keystates, s.2.2.turn f) ↔
      s.2.2.ShiftKept f := by
  obtain ⟨hid', hturn⟩ : ∃ hid', (keyTurn sendErr s.1 f).hid = .ok hid' := by
    cases hturn : (keyTurn sendErr s.1 f).hid with
    | error e =>
      rw [hturn] at hok
      cases hok
    | ok hid' => exact ⟨hid', rfl⟩
  have hcall : s.1.hid.bind (createReports sendErr f.modes (s.1.poll.selectLayer f.keystates)
      (s.1.poll.calls f.keystates)) = .ok hid' := hturn
  obtain ⟨hid, hhid, hcalls⟩ := exceptBind_eq_ok hcall
  have hbit := createReports_shift hcalls
  rw [hs.filter_calls f, List.getLast?_map] at hbit
  have hbefore := hright hid hhid
  have hafter : ShiftRight (keyTurn sendErr s.1 f, s.2.1 ++ s.1.poll.edges f.keystates,
      s.2.2.turn f) ↔ (hid'.kbd.ctrlKeysState.getLsbD 1 = true ↔ (s.2.2.turn f).ShiftHeld) := by
    constructor
    · exact fun h => h hid' hturn
    · intro h hid'' hturn'
      exact Except.ok.inj (hturn.symm.trans hturn') ▸ h
  rw [hafter, Board.ShiftKept, hbit]
  cases hlast : (s.2.2.shiftEdges f).getLast? with
  | none =>
    -- the bit stays, so the users must
    have hnone := List.getLast?_eq_none_iff.mp hlast
    rw [Option.map_none, Option.map_none, Option.getD_none, hbefore]
    exact ⟨Iff.mp, fun h => ⟨h, Board.shiftHeld_of_turn hnone⟩⟩
  | some q =>
    show (s.2.2.after f q = true ↔ (s.2.2.turn f).ShiftHeld) ↔
      (s.2.2.after f q = false → ¬(s.2.2.turn f).ShiftHeld)
    by_cases hdown : s.2.2.after f q = true
    · have hheld := Board.shiftHeld_of_press (List.mem_of_getLast? hlast) hdown
      refine iff_of_true (iff_of_true hdown hheld) ?_
      intro hup
      rw [hdown] at hup
      cases hup
    · rw [Bool.eq_false_of_not_eq_true hdown]
      simp

/-- **Implicit and physical shift**: the shift bit says whether a user of the shift is down
exactly on the runs whose turns all keep the shift. -/
theorem shift_bit_iff_shiftKept (sendErr : Nat → Int) (frames : List Frame) :
    (definedLoop sendErr).Always ShiftRight frames ↔
      (definedLoop sendErr).Along (fun s f _ => s.2.2.ShiftKept f) frames := by
  refine Machine.alwaysFrom_iff (J := fun s => BoardSim s.2.2 s.2.1 s.1.poll) boardSim_zero ?_
    ?_ ?_
  · intro hid hok
    obtain rfl := Except.ok.inj hok
    show (0 : Byte).getLsbD 1 = true ↔ Board.zero.ShiftHeld
    decide
  · intro s f t hs ht
    exact boardSim_step hs (Machine.under_step.mp ht).2
  · intro s f t hs hright ht
    obtain ⟨hok, hstep⟩ := Machine.under_step.mp ht
    obtain rfl := boardLoop_step hstep
    exact shiftRight_turn_iff hs hright hok

/-- The right layer key is down. Left Shift goes down, Q goes down and up again: its release
clears the bit with Left Shift still down. -/
theorem shift_lost_on_release :
    let layerKey : Pins := pinsOf 0x80000
    let frame (keystates : Word) : Frame := { Frame.ofLeft keystates with pins := layerKey }
    let frames := [frame 0, frame 0x1000, frame 0x1002, frame 0x1000]
    ¬(definedLoop fun _ => 0).Always ShiftRight frames ∧
    ∃ s hid, (definedLoop fun _ => 0).run frames = some s ∧ s.1.hid = .ok hid ∧
      hid.kbd.ctrlKeysState = 0 ∧ s.2.2.before leftShift = true := by
  refine ⟨by decide +kernel, _, _, rfl, rfl, ?_⟩
  decide +kernel

end BleKeyboard
