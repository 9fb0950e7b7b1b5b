import BleKeyboard.Report.KeyLoop

/-!
# Keys across layer changes

`create_report` looks a position up again when its switch is released, in the
layer selected by then. The `Board` below is an account of the same run that
knows nothing of the firmware: the words each turn sees, the layer they select,
and for every switch the layer it was last pressed in.

- `run_boardLoop`: the runs with the board on the side are runs of the firmware;
- `releasesMatch_iff_layersAgree`: every release resolves to the code of its press
  exactly on the runs in which each released position carries the same code in
  the layer of the release and in the layer of the press.
- `slotsZero_of_layersAgree`: on these runs, with at most six plain switches down
  at a time, letting go of everything empties the slot table.
-/

namespace BleKeyboard

open Base
open Base.Edge

universe u

/-- The words of the last turn, the right word scanned since, and the layer each
switch was last pressed in. -/
structure Board where
  left : Word
  right : Word
  next : Word
  pressLayer : Pos → Fin 4

namespace Board

/-- Nothing has been pressed. -/
def zero : Board := ⟨0, 0, 0, fun _ => 0⟩

variable (b : Board) (f : Frame)

/-- The left word that a turn goes by: a poll of the sentinel changes nothing. -/
def leftSeen : Word := if f.keystates ≠ noKeystates then f.keystates else b.left

/-- The switches before a turn. -/
def before : Pos → Bool := bitAt b.left b.right

/-- The switches that a turn sees. -/
def after : Pos → Bool := bitAt (b.leftSeen f) b.next

/-- The layer of a turn. The left layer key counts in the word of this turn and
the one before; the right layer key only in the word the turn sees, and only the
older left word makes it layer 3. -/
def layer : Fin 4 :=
  if f.keystates ≠ noKeystates then
    if b.left.getLsbD 22 && b.next.getLsbD 19 then 3
    else if f.keystates.getLsbD 22 || b.left.getLsbD 22 then 1
    else if b.next.getLsbD 19 then 2 else 0
  else if b.next.getLsbD 19 then 2 else 0

/-- One turn. -/
def turn : Board where
  left := b.leftSeen f
  right := b.next
  next := readMatrix f.pins
  pressLayer q := if !b.before q && b.after f q then b.layer f else b.pressLayer q

/-- Each non-layer switch let go in this turn has the same code in the layer of
this turn and in the layer it was pressed in. -/
def LayersAgree : Prop :=
  ∀ lOrR, ∀ i < 24, isLayerKey (lOrR, i) = false →
    b.before (lOrR, i) = true → b.after f (lOrR, i) = false →
      keyCode (b.layer f) (lOrR, i) = keyCode (b.pressLayer (lOrR, i)) (lOrR, i)

/-- At no stage of this turn are more than six plain switches down. -/
def AtMostSix : Prop :=
  ∀ k ≤ 48, (plainPositions.filter fun q => stage b.before (b.after f) k q = true).card
    ≤ keyPressMax

/-- Every non-layer switch is up. -/
def Released : Prop := ∀ lOrR, ∀ i < 24, isLayerKey (lOrR, i) = false → b.before (lOrR, i) = false

instance : Decidable (b.LayersAgree f) := inferInstanceAs (Decidable (∀ _, ∀ i < 24, _))

instance : Decidable (b.AtMostSix f) := inferInstanceAs (Decidable (∀ k ≤ 48, _))

instance : Decidable b.Released := inferInstanceAs (Decidable (∀ _, ∀ i < 24, _))

end Board

/-- The board, the dispatched history and the words of the poll tell the same
story. -/
structure BoardSim (b : Board) (h : History) (p : Poll) : Prop where
  inStep : InStep h p
  keystateRight : p.keystateRight = 0
  left : b.left = p.lastKeystateLeft
  right : b.right = p.dispatchedRight
  next : b.next = p.lastKeystateRight
  pressLayer : ∀ q : Pos, q.2 < 24 → pressed h q = true →
    lastPress h q = some (keyCode (b.pressLayer q) q)

theorem boardSim_zero : BoardSim .zero [] .zero where
  inStep := inStep_zero
  keystateRight := rfl
  left := rfl
  right := rfl
  next := rfl
  pressLayer := by
    intro q _ hq
    rw [pressed_nil] at hq
    cases hq

namespace BoardSim

variable {b : Board} {h : History} {p : Poll} (hs : BoardSim b h p) (f : Frame)
include hs

theorem before_eq : b.before = p.shown := by
  unfold Board.before Poll.shown
  rw [hs.left, hs.right]

theorem after_eq : b.after f = p.seen f.keystates := by
  unfold Board.after Poll.seen Board.leftSeen Poll.reported
  rw [hs.left, hs.next]

theorem layer_eq : b.layer f = p.selectLayer f.keystates := by
  have hzero : (0 : Word).getLsbD 19 = false := BitVec.getLsbD_zero
  unfold Board.layer Poll.selectLayer
  simp only [isIthBitSet_eq, hs.keystateRight, hs.left, hs.next, hzero, Bool.and_false,
    Bool.false_or]

/-- A switch let go in this turn is released through `create_report`. -/
theorem release_mem {q : Pos} (hq : q.2 < 24) (hbefore : b.before q = true)
    (hafter : b.after f q = false) : ⟨q, false, keyCode (b.layer f) q⟩ ∈ p.edges f.keystates := by
  rw [hs.layer_eq f]
  rw [hs.before_eq] at hbefore
  rw [hs.after_eq f] at hafter
  refine mem_edges.mpr ⟨⟨false, q.1, q.2⟩, Poll.mem_calls.mpr ⟨hq, ?_, hafter.symm⟩, rfl⟩
  show p.shown q ≠ p.seen f.keystates q
  rw [hbefore, hafter]
  exact Bool.false_ne_true.symm

/-- Every edge of the turn is a change on the board, in the layer of the turn. -/
theorem of_mem_edges {e : Edge Pos Byte} (he : e ∈ p.edges f.keystates) :
    e.pos.2 < 24 ∧ b.before e.pos = !e.down ∧ b.after f e.pos = e.down ∧
      e.code = keyCode (b.layer f) e.pos := by
  rw [hs.before_eq, hs.after_eq f, hs.layer_eq f]
  obtain ⟨c, hc, rfl⟩ := mem_edges.mp he
  obtain ⟨hpos, hne, hdown⟩ := Poll.mem_calls.mp hc
  refine ⟨hpos, ?_, hdown.symm, rfl⟩
  show p.shown c.pos = !c.down
  rw [hdown]
  exact Bool.eq_not.mpr hne

/-- **Exactness of one turn**: its releases carry the codes of their presses if
and only if the layers agree. -/
theorem releasesMatch_iff (hmatch : ReleasesMatch (fun q => isLayerKey q = false) h) :
    ReleasesMatch (fun q => isLayerKey q = false) (h ++ p.edges f.keystates) ↔
      b.LayersAgree f := by
  rw [releasesMatch_append _ (p.edges_nodup f.keystates), and_iff_right hmatch]
  constructor
  · intro hall lOrR i hi hlayer hbefore hafter
    have hcode := hall _ (hs.release_mem f (q := (lOrR, i)) hi hbefore hafter) hlayer rfl
    have hdown : pressed h (lOrR, i) = true := by
      rw [hs.inStep.pressed (q := (lOrR, i)) hi, ← hs.before_eq, hbefore]
    exact (Option.some.inj ((hs.pressLayer _ hi hdown).symm.trans hcode)).symm
  · intro hagree e he hlayer hdown
    obtain ⟨hpos, hbefore, hafter, hcode⟩ := hs.of_mem_edges f he
    rw [hdown] at hbefore hafter
    have hheld : pressed h e.pos = true := by
      rw [hs.inStep.pressed hpos, ← hs.before_eq, hbefore]
      rfl
    rw [hs.pressLayer _ hpos hheld, hcode]
    exact congrArg some (hagree e.pos.1 e.pos.2 hpos hlayer hbefore hafter).symm

/-- A turn keeps the board, the history and the poll together. -/
theorem turn : BoardSim (b.turn f) (h ++ p.edges f.keystates)
    ((p.reported f.keystates).scanned f.pins) where
  inStep := hs.inStep.turn f.keystates f.pins
  keystateRight := hs.keystateRight
  left := by
    show b.leftSeen f = (p.reported f.keystates).lastKeystateLeft
    unfold Board.leftSeen Poll.reported
    rw [hs.left]
  right := by
    rw [Poll.scanned_dispatchedRight]
    exact hs.next
  next := rfl
  pressLayer := by
    intro q hq hdown
    have hafter : b.after f q = true := by
      rw [hs.after_eq f, ← hs.inStep.pressed_after_call f.keystates hq, hdown]
    show _ = some (keyCode (if !b.before q && b.after f q then b.layer f else b.pressLayer q) q)
    by_cases hbefore : b.before q = true
    · -- the switch stayed down: no edge of this turn is about it
      have hnot : q ∉ (p.edges f.keystates).map Edge.pos := by
        intro hmem
        obtain ⟨e, he, rfl⟩ := List.mem_map.mp hmem
        obtain ⟨-, hb, ha, -⟩ := hs.of_mem_edges f he
        rw [hafter] at ha
        rw [← ha, hbefore] at hb
        cases hb
      have hheld : pressed h q = true := by
        rw [hs.inStep.pressed hq, ← hs.before_eq, hbefore]
      rw [lastPress_append_of_not_mem _ _ hnot, hs.pressLayer q hq hheld, hbefore]
      rfl
    · -- the switch went down in this turn
      have hbefore : b.before q = false := Bool.not_eq_true _ ▸ hbefore
      have hne : p.shown q ≠ p.seen f.keystates q := by
        rw [← hs.before_eq, ← hs.after_eq f, hbefore, hafter]
        exact Bool.false_ne_true
      have hedge : (⟨q, true, keyCode (p.selectLayer f.keystates) q⟩ : Edge Pos Byte)
          ∈ p.edges f.keystates := by
        refine mem_edges.mpr ⟨⟨true, q.1, q.2⟩, Poll.mem_calls.mpr ⟨hq, hne, ?_⟩, rfl⟩
        exact hafter.symm.trans (congrFun (hs.after_eq f) q)
      rw [lastPress_append_of_mem (p.edges_nodup f.keystates) hedge, if_pos rfl, hbefore, hafter,
        hs.layer_eq f]
      rfl

end BoardSim

/-! ## Runs -/

/-- The reporting turns, with the dispatched history and the board on the side. -/
def boardLoop (sendErr : Nat → Int) : Machine (KeyState × History × Board) Frame :=
  (keyLoop sendErr).recording ([], .zero)
    fun r s f => (r.1 ++ s.poll.edges f.keystates, r.2.turn f)

/-- On runs of the firmware whose turns all report, the loop with the board on the side
goes through the words of the poll and the keyboard state of the firmware. -/
theorem run_boardLoop {κ : Type u} {sendErr : Nat → Int} {fw : Firmware κ}
    {es : List (Firmware.Event κ)}
    (hrep : (firmware κ sendErr).Along (fun fw e _ => fw.OnlyReports e) es)
    (hrun : (firmware κ sendErr).run es = some fw) :
    ((boardLoop sendErr).run (Firmware.init.frames sendErr es)).map Prod.fst
      = some ⟨fw.poll, fw.hid⟩ :=
  (Machine.runFrom_recording (M := keyLoop sendErr) _ _).trans (Firmware.run_keyLoop hrep hrun)

theorem boardLoop_step {sendErr : Nat → Int} {s t : KeyState × History × Board} {f : Frame}
    (ht : (boardLoop sendErr).step s f = some t) :
    t = (keyTurn sendErr s.1 f, s.2.1 ++ s.1.poll.edges f.keystates, s.2.2.turn f) := by
  obtain ⟨hstep, hrec⟩ := Machine.recording_step.mp ht
  exact Prod.ext (Option.some.inj hstep).symm hrec

theorem boardSim_step {sendErr : Nat → Int} {s t : KeyState × History × Board} {f : Frame}
    (hs : BoardSim s.2.2 s.2.1 s.1.poll) (ht : (boardLoop sendErr).step s f = some t) :
    BoardSim t.2.2 t.2.1 t.1.poll := by
  obtain rfl := boardLoop_step ht
  exact hs.turn f

/-- Every release resolves to the code of its press exactly on the runs whose
turns all have agreeing layers. -/
theorem releasesMatch_iff_layersAgree (sendErr : Nat → Int) (frames : List Frame) :
    (boardLoop sendErr).Always (fun s => ReleasesMatch (fun q => isLayerKey q = false) s.2.1)
        frames ↔
      (boardLoop sendErr).Along (fun s f _ => s.2.2.LayersAgree f) frames := by
  refine Machine.alwaysFrom_iff (J := fun s => BoardSim s.2.2 s.2.1 s.1.poll) boardSim_zero
    (releasesMatch_nil _) (fun s f t hs ht => boardSim_step hs ht) ?_
  intro s f t hs hmatch ht
  obtain rfl := boardLoop_step ht
  exact hs.releasesMatch_iff f hmatch

/-- Plain positions are not layer keys. -/
theorem isLayerKey_of_mem_plainPositions {q : Pos} (hq : q ∈ plainPositions) :
    isLayerKey q = false := (isPlain_iff.mp (mem_plainPositions.mp hq).2).1

/-- With agreeing layers and room, a turn keeps the slot table in step. -/
theorem BoardSim.holds_turn (sendErr : Nat → Int) {b : Board} {h : History} {s : KeyState}
    (hs : BoardSim b h s.poll) (hmatch : ReleasesMatch (fun q => isLayerKey q = false) h)
    (hh : Holds h s.hid) {f : Frame} (hagree : b.LayersAgree f) (hsix : b.AtMostSix f) :
    Holds (h ++ s.poll.edges f.keystates) (keyTurn sendErr s f).hid := by
  have hplain : ReleasesMatch (· ∈ plainPositions) (h ++ s.poll.edges f.keystates) :=
    fun pre e post hsplit hS hdown => (hs.releasesMatch_iff f hmatch).mpr hagree pre e post hsplit
      (isLayerKey_of_mem_plainPositions hS) hdown
  refine callKeyReport_holds sendErr f.modes hh (hs.inStep.alternates_after_call f.keystates) hplain
    (hs.inStep.room fun k hk => ?_)
  rw [← hs.before_eq, ← hs.after_eq f]
  exact hsix k hk

/-- On runs with agreeing layers and room, the slot table is empty whenever every
non-layer switch is up. -/
theorem slotsZero_of_layersAgree (sendErr : Nat → Int) (frames : List Frame)
    (hruns : (boardLoop sendErr).Along
      (fun s f _ => s.2.2.LayersAgree f ∧ s.2.2.AtMostSix f) frames) :
    (boardLoop sendErr).Always (fun s => s.2.2.Released → SlotsZero s.1.hid) frames := by
  refine Machine.AlwaysFrom.mono (P := fun s => BoardSim s.2.2 s.2.1 s.1.poll ∧
      ReleasesMatch (fun q => isLayerKey q = false) s.2.1 ∧ Holds s.2.1 s.1.hid) ?_ ?_
  · refine Machine.AlwaysFrom.of_inv ⟨boardSim_zero, releasesMatch_nil _, holds_nil⟩ hruns ?_
    rintro s f t ⟨hs, hmatch, hh⟩ ⟨hagree, hsix⟩ ht
    obtain rfl := boardLoop_step ht
    exact ⟨hs.turn f, (hs.releasesMatch_iff f hmatch).mpr hagree,
      hs.holds_turn sendErr hmatch hh hagree hsix⟩
  · rintro s ⟨hs, -, hh⟩ hup
    refine hh.slotsZero ?_
    intro q hq
    have hpos := (mem_plainPositions.mp hq).1
    rw [hs.inStep.pressed hpos, ← hs.before_eq]
    exact hup q.1 q.2 hpos (isLayerKey_of_mem_plainPositions hq)

/-- **No stuck keys**: releases resolve to the codes of their presses exactly on
the runs with agreeing layers, and on those with room as well no key is left
behind. -/
theorem no_stuck_keys_iff_layersAgree (sendErr : Nat → Int) (frames : List Frame) :
    ((boardLoop sendErr).Always (fun s => ReleasesMatch (fun q => isLayerKey q = false) s.2.1)
        frames ↔
      (boardLoop sendErr).Along (fun s f _ => s.2.2.LayersAgree f) frames) ∧
    ((boardLoop sendErr).Along (fun s f _ => s.2.2.LayersAgree f ∧ s.2.2.AtMostSix f) frames →
      (boardLoop sendErr).Always (fun s => s.2.2.Released → SlotsZero s.1.hid) frames) :=
  ⟨releasesMatch_iff_layersAgree sendErr frames, slotsZero_of_layersAgree sendErr frames⟩

/-- A poll of a left word, with a host connected and the right half at rest. -/
def Frame.ofLeft (keystates : Word) : Frame :=
  ⟨#v[⟨some 0, false⟩, ⟨none, false⟩], keystates, fun _ _ => 0⟩

/-- A is pressed, then the left layer key; A is let go, then the layer key. The
release of A clears `KEY_NONE`, and A stays in the table. -/
theorem stuck_key_after_layer_key :
    let frames := [Frame.ofLeft 0x80, .ofLeft 0x400080, .ofLeft 0x400000, .ofLeft 0]
    (∀ f ∈ frames, f.keystates ≠ noKeystates) ∧
    (boardLoop fun _ => 0).Along (fun s f _ => s.2.2.AtMostSix f) frames ∧
    ¬(boardLoop fun _ => 0).Always
      (fun s => ReleasesMatch (fun q => isLayerKey q = false) s.2.1) frames ∧
    ¬(boardLoop fun _ => 0).Always (fun s => s.2.2.Released → SlotsZero s.1.hid) frames := by
  decide +kernel

end BleKeyboard
