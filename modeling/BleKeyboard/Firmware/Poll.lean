import BleKeyboard.Firmware.Report

/-!
# The poll (`main.c` of the HID keyboard, `call_key_report` and `get_keystate`)

One turn of the main loop reads the left word the client last stored, compares
it with the word it dispatched before, and calls `create_report` for each
changed position; then for each position in the change mask of the right half,
which the scan of the turn before left behind.

Main results:

- `scanChanges_eq`: a loop of `call_key_report` visits positions 0 to 23 in
  order, each changed one once;
- `calls_nodup`: one call of `call_key_report` never visits a position twice;
- `readMatrix_pinsOf`: every 24-bit word is the scan of some matrix.
-/

namespace BleKeyboard

open Base

/-! ## The matrix scan -/

/-- `NUM_OF_ROW`. -/
def numOfRow : Nat := 4

/-- `NUM_OF_COL`. -/
def numOfCol : Nat := 6

/-- `NUM_OF_BUT`. -/
def numOfBut : Nat := 0

/-- What `gpio_pin_get_dt` returns for each row and column of one scan: 0, 1 or
a negative error code. -/
abbrev Pins := Fin numOfRow → Fin numOfCol → Int

/-- The double loop of `get_keystate`: `button_state` after a scan. -/
def readMatrix (pins : Pins) : Word :=
  (List.finRange numOfRow).foldl (fun buttonState i =>
    (List.finRange numOfCol).foldl (fun buttonState j =>
      buttonState ||| BitVec.ofInt 32 (pins i j)
        <<< (numOfBut + (numOfRow - 1 - i.val) * numOfCol + (numOfCol - 1 - j.val)))
      buttonState) 0

/-- `get_keystate`: the scanned word and `*has_changed`. -/
def getKeystate (pins : Pins) (lastButtonState : Word) : Word × Word :=
  let buttonState := readMatrix pins
  (buttonState, buttonState ^^^ lastButtonState)

/-! ## `call_key_report` -/

/-- `1 << n` for a 32-bit count, as the processor's register shift computes it:
only the low byte of the count matters, and 32 or more shifts everything out. -/
def shl1 (n : Word) : Word :=
  if n.toNat % 256 < 32 then 1#32 <<< (n.toNat % 256) else 0

/-- One turn of a loop of `call_key_report`; the count `i - 1` wraps around at
`i = 0`. -/
def scanTurn (changed word : Word) (lOrR : Bool) (i : Nat) : Option Call :=
  let position := BitVec.ofNat 32 i - 1#32
  if changed &&& shl1 position ≠ 0#32 then
    some ⟨decide (word &&& shl1 position ≠ 0#32), lOrR, position.toNat⟩
  else none

/-- The loops of `call_key_report` over `i < 25`: the calls of `create_report`
for one half, in order. -/
def scanChanges (changed word : Word) (lOrR : Bool) : List Call :=
  (List.range 25).filterMap (scanTurn changed word lOrR)

/-- The words the poll works on: file-level variables of `main.c`. -/
structure Poll where
  lastKeystateLeft : Word
  lastKeystateRight : Word
  keystateRight : Word
  rightKeystateChange : Word
  layerSelection : Fin 4
  deriving DecidableEq, Repr

/-- The initial values. -/
def Poll.zero : Poll := ⟨0, 0, 0, 0, 0⟩

/-- The sentinel `0xff` that `call_key_report` skips the left half for. -/
def noKeystates : Word := 0xff

namespace Poll

/-- The layer `call_key_report` selects. -/
def selectLayer (keystates : Word) (p : Poll) : Fin 4 :=
  -- nothing ever assigns `keystate_right`
  let layer : Fin 4 :=
    if isIthBitSet p.keystateRight 19 || isIthBitSet p.lastKeystateRight 19 then 2 else 0
  if keystates ≠ noKeystates then
    if isIthBitSet keystates 22 && isIthBitSet p.keystateRight 19 ||
        isIthBitSet p.lastKeystateLeft 22 && isIthBitSet p.lastKeystateRight 19 then 3
    else if isIthBitSet keystates 22 || isIthBitSet p.lastKeystateLeft 22 then 1
    else layer
  else layer

/-- The calls of `create_report` for the left half. -/
def leftCalls (keystates : Word) (p : Poll) : List Call :=
  if keystates ≠ noKeystates then scanChanges (keystates ^^^ p.lastKeystateLeft) keystates true
  else []

/-- The calls of `create_report` for the right half. -/
def rightCalls (p : Poll) : List Call :=
  scanChanges p.rightKeystateChange p.lastKeystateRight false

/-- All calls of `create_report` that one `call_key_report` makes. -/
def calls (keystates : Word) (p : Poll) : List Call := p.leftCalls keystates ++ p.rightCalls

/-- The words after `call_key_report`. -/
def reported (keystates : Word) (p : Poll) : Poll :=
  { p with
    layerSelection := p.selectLayer keystates
    lastKeystateLeft := if keystates ≠ noKeystates then keystates else p.lastKeystateLeft }

/-- `last_keystate_right = get_keystate(last_keystate_right, &right_keystate_change)`. -/
def scanned (pins : Pins) (p : Poll) : Poll :=
  let (word, change) := getKeystate pins p.lastKeystateRight
  { p with lastKeystateRight := word, rightKeystateChange := change }

end Poll

/-- `call_key_report`. The words advance in the same way whatever becomes of the
keyboard state, so they are kept apart from it; `hid` is the first access outside
an array once there has been one. -/
def callKeyReport (sendErr : Nat → Int) (modes : ConnModes) (keystates : Word) (p : Poll)
    (hid : Except Fault Hid) : Poll × Except Fault Hid :=
  -- the layer is chosen before `last_keystate_left` moves on
  (p.reported keystates,
    hid.bind (createReports sendErr modes (p.selectLayer keystates) (p.calls keystates)))

/-! ## Which calls a loop makes -/

theorem shl1_ofNat {i : Nat} (hi : i < 32) : shl1 (BitVec.ofNat 32 i) = 1#32 <<< i := by
  have hmod : (BitVec.ofNat 32 i).toNat % 256 = i := by
    rw [BitVec.toNat_ofNat]
    omega
  rw [shl1, hmod, if_pos hi]

/-- The turn for `i = 0` tests an empty mask. -/
theorem scanTurn_zero (changed word : Word) (lOrR : Bool) :
    scanTurn changed word lOrR 0 = none := by
  have hzero : changed &&& shl1 (BitVec.ofNat 32 0 - 1#32) = 0#32 := by
    rw [show shl1 (BitVec.ofNat 32 0 - 1#32) = 0#32 by decide, BitVec.and_zero]
  exact if_neg (not_not.mpr hzero)

theorem scanTurn_succ (changed word : Word) (lOrR : Bool) {i : Nat} (hi : i < 32) :
    scanTurn changed word lOrR (i + 1)
      = if changed.getLsbD i then some ⟨word.getLsbD i, lOrR, i⟩ else none := by
  have hpos : BitVec.ofNat 32 (i + 1) - 1#32 = BitVec.ofNat 32 i := by
    apply BitVec.eq_of_toNat_eq
    rw [BitVec.toNat_sub, BitVec.toNat_ofNat, BitVec.toNat_ofNat]
    show (2 ^ 32 - 1 + (i + 1) % 2 ^ 32) % 2 ^ 32 = i % 2 ^ 32
    omega
  have hnat : (BitVec.ofNat 32 i).toNat = i := by
    rw [BitVec.toNat_ofNat]
    omega
  have hchanged := and_one_shiftLeft_ne_zero changed hi
  have hword : decide (word &&& 1#32 <<< i ≠ 0#32) = word.getLsbD i :=
    Bool.eq_iff_iff.mpr (decide_eq_true_iff.trans (and_one_shiftLeft_ne_zero word hi))
  unfold scanTurn
  simp only [hpos, hnat, shl1_ofNat hi]
  by_cases hc : changed.getLsbD i = true
  · rw [if_pos hc, if_pos (hchanged.mpr hc)]
    exact congrArg some (congrArg (Call.mk · lOrR i) hword)
  · rw [if_neg hc, if_neg (fun h => hc (hchanged.mp h))]

/-- The mask test of turn `i`. -/
theorem test_ne_zero_iff (w : Word) {i : Nat} (hi : i < 25) :
    w &&& shl1 (BitVec.ofNat 32 i - 1#32) ≠ 0#32 ↔ 0 < i ∧ w.getLsbD (i - 1) = true := by
  have hturn : (scanTurn w w true i).isSome = true ↔
      w &&& shl1 (BitVec.ofNat 32 i - 1#32) ≠ 0#32 := by
    rw [scanTurn]
    split <;> simp_all
  rw [← hturn]
  cases i with
  | zero =>
    rw [scanTurn_zero]
    exact iff_of_false nofun fun h => Nat.lt_irrefl 0 h.1
  | succ i =>
    rw [scanTurn_succ w w true (show i < 32 by omega), Nat.add_sub_cancel]
    split <;> simp_all

theorem toNat_position {i : Nat} (hpos : 0 < i) (hi : i < 25) :
    (BitVec.ofNat 32 i - 1#32).toNat = i - 1 := by
  rw [BitVec.toNat_sub, BitVec.toNat_ofNat]
  show (2 ^ 32 - 1 + i % 2 ^ 32) % 2 ^ 32 = i - 1
  omega

/-- A loop visits positions 0 to 23, in order. -/
theorem scanChanges_eq (changed word : Word) (lOrR : Bool) :
    scanChanges changed word lOrR = (List.range 24).filterMap fun i =>
      if changed.getLsbD i then some ⟨word.getLsbD i, lOrR, i⟩ else none := by
  rw [scanChanges, List.range_succ_eq_map, List.filterMap_cons_none (scanTurn_zero _ _ _),
    List.filterMap_map]
  exact List.filterMap_congr fun i hi =>
    scanTurn_succ changed word lOrR (Nat.lt_trans (List.mem_range.mp hi) (by decide))

theorem mem_scanChanges {changed word : Word} {lOrR : Bool} {c : Call} :
    c ∈ scanChanges changed word lOrR ↔
      c.lOrR = lOrR ∧ c.position < 24 ∧ changed.getLsbD c.position = true ∧
        c.down = word.getLsbD c.position := by
  rw [scanChanges_eq, List.mem_filterMap]
  constructor
  · rintro ⟨i, hi, hc⟩
    split at hc
    · next hch =>
      rw [← Option.some.inj hc]
      exact ⟨rfl, List.mem_range.mp hi, hch, rfl⟩
    · cases hc
  · rintro ⟨rfl, hpos, hch, hdown⟩
    refine ⟨c.position, List.mem_range.mpr hpos, ?_⟩
    rw [if_pos hch, ← hdown]

/-- A loop visits no position twice. -/
theorem scanChanges_nodup (changed word : Word) (lOrR : Bool) :
    ((scanChanges changed word lOrR).map Call.pos).Nodup := by
  have hmap : (scanChanges changed word lOrR).map Call.pos
      = ((List.range 24).filter fun i => changed.getLsbD i).map (Prod.mk lOrR) := by
    rw [scanChanges_eq, List.map_filterMap, ← List.filterMap_eq_filter, List.map_filterMap]
    refine List.filterMap_congr ?_
    intro i _
    cases h : changed.getLsbD i <;> simp [Call.pos, h, Option.guard]
  rw [hmap]
  exact (List.nodup_range.filter _).map fun i j h => (Prod.mk.inj h).2

namespace Poll

theorem mem_leftCalls {keystates : Word} {p : Poll} {c : Call} :
    c ∈ p.leftCalls keystates ↔ keystates ≠ noKeystates ∧ c.lOrR = true ∧ c.position < 24 ∧
      (keystates ^^^ p.lastKeystateLeft).getLsbD c.position = true ∧
        c.down = keystates.getLsbD c.position := by
  unfold leftCalls
  split
  · next h => rw [mem_scanChanges, and_iff_right h]
  · next h => simp [h]

theorem mem_rightCalls {p : Poll} {c : Call} :
    c ∈ p.rightCalls ↔ c.lOrR = false ∧ c.position < 24 ∧
      p.rightKeystateChange.getLsbD c.position = true ∧
        c.down = p.lastKeystateRight.getLsbD c.position := mem_scanChanges

theorem leftCalls_nodup (keystates : Word) (p : Poll) :
    ((p.leftCalls keystates).map Call.pos).Nodup := by
  unfold leftCalls
  split
  · exact scanChanges_nodup _ _ _
  · exact List.nodup_nil

/-- One `call_key_report` visits no position twice. -/
theorem calls_nodup (keystates : Word) (p : Poll) :
    ((p.calls keystates).map Call.pos).Nodup := by
  rw [calls, List.map_append]
  refine (p.leftCalls_nodup keystates).append (scanChanges_nodup _ _ _) ?_
  intro x hl hr
  obtain ⟨c, hc, rfl⟩ := List.mem_map.mp hl
  obtain ⟨d, hd, heq⟩ := List.mem_map.mp hr
  have hcl := (mem_leftCalls.mp hc).2.1
  have hdr := (mem_rightCalls.mp hd).1
  rw [Call.pos, Call.pos, hcl, hdr] at heq
  cases (Prod.mk.inj heq).1

theorem position_lt_of_mem_calls {keystates : Word} {p : Poll} {c : Call}
    (hc : c ∈ p.calls keystates) : c.position < 24 := by
  rcases List.mem_append.mp hc with h | h
  · exact (mem_leftCalls.mp h).2.2.1
  · exact (mem_rightCalls.mp h).2.1

@[simp] theorem scanned_lastKeystateLeft (pins : Pins) (p : Poll) :
    (p.scanned pins).lastKeystateLeft = p.lastKeystateLeft := rfl

@[simp] theorem scanned_rightKeystateChange (pins : Pins) (p : Poll) :
    (p.scanned pins).rightKeystateChange = readMatrix pins ^^^ p.lastKeystateRight := rfl

end Poll

/-! ## Words as matrices -/

/-- The switch at row `i`, column `j` is bit `(3 - i) * 6 + (5 - j)`. -/
def bitOf (i : Fin numOfRow) (j : Fin numOfCol) : Nat :=
  (numOfRow - 1 - i.val) * numOfCol + (numOfCol - 1 - j.val)

theorem bitOf_lt (i : Fin numOfRow) (j : Fin numOfCol) : bitOf i j < 24 := by
  decide +revert

/-- The scan of clean readings has exactly the bits of the closed switches. -/
theorem readMatrix_getLsbD {pins : Pins} (hpins : ∀ i j, pins i j = 0 ∨ pins i j = 1) (p : Nat) :
    (readMatrix pins).getLsbD p = ((List.finRange numOfRow).any fun i =>
      (List.finRange numOfCol).any fun j => decide (pins i j = 1) && decide (p = bitOf i j)) := by
  have hturn : ∀ (i : Fin numOfRow) (w : Word) (j : Fin numOfCol),
      (w ||| BitVec.ofInt 32 (pins i j)
        <<< (numOfBut + (numOfRow - 1 - i.val) * numOfCol + (numOfCol - 1 - j.val))).getLsbD p
        = (w.getLsbD p || (decide (pins i j = 1) && decide (p = bitOf i j))) := by
    intro i w j
    have hlt : bitOf i j < 32 := Nat.lt_trans (bitOf_lt i j) (by decide)
    rw [BitVec.getLsbD_or, numOfBut, Nat.zero_add]
    exact congrArg (w.getLsbD p || ·) (getLsbD_ofInt_shiftLeft (hpins i j) hlt p)
  have hfold := getLsbD_foldl (fun w i => getLsbD_foldl (hturn i) (List.finRange numOfCol) w)
    (List.finRange numOfRow) 0
  rw [readMatrix, hfold]
  simp

/-- The readings of a matrix whose switches are the low 24 bits of `w`. -/
def pinsOf (w : Word) : Pins := fun i j => if w.getLsbD (bitOf i j) then 1 else 0

/-- Every 24-bit word is the scan of some matrix. -/
theorem readMatrix_pinsOf {w : Word} (hw : w.toNat < 2 ^ 24) : readMatrix (pinsOf w) = w := by
  have hpins : ∀ i j, pinsOf w i j = 0 ∨ pinsOf w i j = 1 := by
    intro i j
    unfold pinsOf
    split <;> simp
  have hbit : ∀ p < 24, ∃ i j, p = bitOf i j := by decide
  refine BitVec.eq_of_getLsbD_eq ?_
  intro p _
  rw [readMatrix_getLsbD hpins, Bool.eq_iff_iff]
  simp only [List.any_eq_true, List.mem_finRange, true_and, Bool.and_eq_true,
    decide_eq_true_eq, pinsOf]
  constructor
  · rintro ⟨i, j, hij, rfl⟩
    -- a closed switch is a set bit
    by_contra hoff
    simp [hoff] at hij
  · intro hon
    -- and a set bit lies in the matrix
    have hp : p < 24 := by
      by_contra hge
      have hhigh : w.getLsbD p = false := by
        rw [BitVec.getLsbD, Nat.testBit_lt_two_pow]
        exact Nat.lt_of_lt_of_le hw (Nat.pow_le_pow_right (by decide) (Nat.le_of_not_lt hge))
      rw [hhigh] at hon
      cases hon
    obtain ⟨i, j, rfl⟩ := hbit p hp
    exact ⟨i, j, decide_eq_true (if_pos hon), rfl⟩

end BleKeyboard
