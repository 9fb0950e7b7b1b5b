import BleKeyboard.Firmware.LeftHalf

/-!
# Switches and bits

A scan puts the reading of row `i`, column `j` at bit `(3 - i) * 6 + (5 - j)`, and
`create_report` looks a position `p` up at `[p / 6][p % 6]`. Both halves scan with the same
loop.

- `scan_decodes`: with clean readings, each bit below 24 is one switch, which the position
  gives back, and the mask has the bits of the switches that have moved;
- `contained_iff`: a failed reading is shifted into the word like any other, so only a scan
  without one is contained.
-/

namespace BleKeyboard

open Base

/-! ## Clean readings -/

/-- The row of the switch at a position. -/
def rowOf (p : Fin 24) : Fin numOfRow := ⟨3 - p / 6, by
  unfold numOfRow
  omega⟩

/-- The column of the switch at a position. -/
def colOf (p : Fin 24) : Fin numOfCol := ⟨5 - p % 6, by
  unfold numOfCol
  omega⟩

theorem bitOf_eq_iff (p : Fin 24) (i : Fin numOfRow) (j : Fin numOfCol) :
    p.val = bitOf i j ↔ i = rowOf p ∧ j = colOf p := by
  decide +revert

theorem getLsbD_readMatrix {pins : Pins} (hpins : ∀ i j, pins i j = 0 ∨ pins i j = 1) (p : Fin 24) :
    (readMatrix pins).getLsbD p = true ↔ pins (rowOf p) (colOf p) = 1 := by
  rw [readMatrix_getLsbD hpins]
  simp only [List.any_eq_true, List.mem_finRange, true_and, Bool.and_eq_true, decide_eq_true_eq,
    bitOf_eq_iff]
  constructor
  · rintro ⟨i, j, hon, rfl, rfl⟩
    exact hon
  · intro hon
    exact ⟨rowOf p, colOf p, hon, rfl, rfl⟩

/-- No bit from 24 on is set. -/
theorem readMatrix_lt {pins : Pins} (hpins : ∀ i j, pins i j = 0 ∨ pins i j = 1) :
    (readMatrix pins).toNat < 2 ^ 24 := by
  refine Nat.lt_pow_two_of_testBit _ ?_
  intro p hp
  show (readMatrix pins).getLsbD p = false
  rw [readMatrix_getLsbD hpins, List.any_eq_false]
  intro i _
  rw [List.any_eq_true]
  rintro ⟨j, -, hj⟩
  rw [Bool.and_eq_true, decide_eq_true_eq, decide_eq_true_eq] at hj
  have hlt := bitOf_lt i j
  omega

/-- A scan with the word before it, of either half, says which switches are closed and which
have moved. -/
structure ScanDecodes (pins : Pins) (last : Word) (s : LeftHalf) (gattErr : Int) : Prop where
  /-- The left half scans the same word, and sends it if it has moved. -/
  leftWord : (s.getKeystate pins gattErr).1.buttonState = (getKeystate pins last).1
  leftSends : (s.getKeystate pins gattErr).2 =
    if (getKeystate pins s.buttonState).2 ≠ 0 then
      (s.sendKeystate (getKeystate pins last).1 gattErr).2
    else none
  lt : (getKeystate pins last).1.toNat < 2 ^ 24
  bit : ∀ p : Fin 24,
    (getKeystate pins last).1.getLsbD p = true ↔ pins (rowOf p) (colOf p) = 1
  bijective : Function.Bijective fun ij : Fin numOfRow × Fin numOfCol =>
    (⟨bitOf ij.1 ij.2, bitOf_lt ij.1 ij.2⟩ : Fin 24)
  /-- `create_report` gets the row and the column back, both mirrored. -/
  position : ∀ i j, bitOf i j / 6 = 3 - i.val ∧ bitOf i j % 6 = 5 - j.val
  mask : ∀ p : Fin 24, (getKeystate pins last).2.getLsbD p = true ↔
    decide (pins (rowOf p) (colOf p) = 1) ≠ last.getLsbD p

/-- **Scan and decoding are inverse** to each other, as long as the readings are clean. -/
theorem scan_decodes {pins : Pins} (hpins : ∀ i j, pins i j = 0 ∨ pins i j = 1) (last : Word)
    (s : LeftHalf) (gattErr : Int) : ScanDecodes pins last s gattErr where
  leftWord := rfl
  leftSends := rfl
  lt := readMatrix_lt hpins
  bit := getLsbD_readMatrix hpins
  bijective := by
    constructor
    · rintro ⟨i, j⟩ ⟨i', j'⟩ heq
      have hval : bitOf i j = bitOf i' j' := congrArg Fin.val heq
      obtain ⟨hi, hj⟩ := (bitOf_eq_iff ⟨bitOf i j, bitOf_lt i j⟩ i j).mp rfl
      obtain ⟨hi', hj'⟩ := (bitOf_eq_iff ⟨bitOf i j, bitOf_lt i j⟩ i' j').mp hval
      rw [Prod.mk.injEq, hi, hi', hj, hj']
      exact ⟨rfl, rfl⟩
    · intro p
      exact ⟨(rowOf p, colOf p), Fin.ext ((bitOf_eq_iff p _ _).mpr ⟨rfl, rfl⟩).symm⟩
  position := by decide
  mask := by
    intro p
    have hbit := Bool.eq_iff_iff.mpr
      ((getLsbD_readMatrix hpins p).trans (decide_eq_true_iff).symm)
    show (readMatrix pins ^^^ last).getLsbD p = true ↔ _
    rw [BitVec.getLsbD_xor, hbit, bne_iff_ne]

/-- A scan of the switches at positions 0 and 2. -/
theorem scan_decodes_two : ScanDecodes (pinsOf 5) 3 (.init 1) 0 :=
  scan_decodes (by decide) 3 (.init 1) 0

/-! ## Failed readings -/

/-- The operands that a scan shifts, in order. -/
def shifted (pins : Pins) : List Int :=
  (List.finRange numOfRow).flatMap fun i => (List.finRange numOfCol).map (pins i)

/-- Failed readings show nowhere in the word, and no negative number is shifted. -/
structure Contained (pins : Pins) (word : Word) : Prop where
  lt : word.toNat < 2 ^ 24
  bit : ∀ i j, pins i j = 0 ∨ pins i j = 1 → word.getLsbD (bitOf i j) = decide (pins i j = 1)
  shifts : ∀ v ∈ shifted pins, 0 ≤ v

theorem mem_shifted {pins : Pins} {v : Int} : v ∈ shifted pins ↔ ∃ i j, pins i j = v := by
  simp [shifted]

/-- **A scan is contained** exactly if no reading fails, in either half. -/
theorem contained_iff {pins : Pins} (hpins : ∀ i j, pins i j = 0 ∨ pins i j = 1 ∨ pins i j < 0)
    (last : Word) (s : LeftHalf) (gattErr : Int) :
    (Contained pins (getKeystate pins last).1 ∧
      Contained pins (s.getKeystate pins gattErr).1.buttonState) ↔ ∀ i j, 0 ≤ pins i j := by
  have hleft : (s.getKeystate pins gattErr).1.buttonState = (getKeystate pins last).1 := rfl
  rw [hleft, and_self_iff]
  constructor
  · intro h i j
    exact h.shifts _ (mem_shifted.mpr ⟨i, j, rfl⟩)
  · intro hread
    have hclean : ∀ i j, pins i j = 0 ∨ pins i j = 1 := by
      intro i j
      have hnonneg := hread i j
      have hij := hpins i j
      omega
    refine ⟨readMatrix_lt hclean, ?_, ?_⟩
    · intro i j _
      obtain ⟨hi, hj⟩ := (bitOf_eq_iff ⟨bitOf i j, bitOf_lt i j⟩ i j).mp rfl
      have hbit := getLsbD_readMatrix hclean ⟨bitOf i j, bitOf_lt i j⟩
      rw [← hi, ← hj] at hbit
      exact Bool.eq_iff_iff.mpr (hbit.trans decide_eq_true_iff.symm)
    · intro v hv
      obtain ⟨i, j, rfl⟩ := mem_shifted.mp hv
      exact hread i j

/-- The error codes of the system are small: a failed reading sets the highest bit of the
word, wherever it is shifted to. -/
theorem readMatrix_lt_iff {pins : Pins}
    (hpins : ∀ i j, pins i j = 0 ∨ pins i j = 1 ∨ -256 ≤ pins i j ∧ pins i j < 0) :
    (readMatrix pins).toNat < 2 ^ 24 ↔ ∀ i j, 0 ≤ pins i j := by
  have hturn : ∀ (i : Fin numOfRow) (w : Word) (j : Fin numOfCol),
      (w ||| BitVec.ofInt 32 (pins i j)
        <<< (numOfBut + (numOfRow - 1 - i.val) * numOfCol + (numOfCol - 1 - j.val))).getLsbD 31
        = (w.getLsbD 31 || decide (pins i j < 0)) := by
    intro i w j
    have hlt := bitOf_lt i j
    rw [BitVec.getLsbD_or, numOfBut, Nat.zero_add]
    refine congrArg (w.getLsbD 31 || ·) ?_
    have hbit : (BitVec.ofInt 32 (pins i j)).getLsbD (31 - bitOf i j) = decide (pins i j < 0) := by
      rcases hpins i j with h | h | ⟨hsmall, hneg⟩
      · simp [h]
      · have hone : BitVec.ofInt 32 1 = 1#32 := by decide
        rw [h, hone, BitVec.getLsbD_one]
        simp
        omega
      · rw [decide_eq_true hneg]
        exact getLsbD_ofInt_of_neg hneg hsmall (by omega) (by omega)
    show (BitVec.ofInt 32 (pins i j) <<< bitOf i j).getLsbD 31 = _
    rw [BitVec.getLsbD_shiftLeft, hbit, decide_eq_true (by decide), Bool.true_and,
      decide_eq_false (by omega), Bool.not_false, Bool.true_and]
  have hfold := getLsbD_foldl (fun w i => getLsbD_foldl (hturn i) (List.finRange numOfCol) w)
    (List.finRange numOfRow) 0
  have hhigh : (readMatrix pins).getLsbD 31 = true ↔ ∃ i j, pins i j < 0 := by
    rw [readMatrix, hfold]
    simp
  constructor
  · intro hlt i j
    by_contra hneg
    have hset := hhigh.mpr ⟨i, j, Int.lt_of_not_ge hneg⟩
    rw [BitVec.getLsbD, Nat.testBit_lt_two_pow (Nat.lt_trans hlt (by decide))] at hset
    cases hset
  · intro hread
    refine readMatrix_lt fun i j => ?_
    have hnonneg := hread i j
    have hij := hpins i j
    omega

/-- The switch at position 0 fails with `-EIO`, and no other is pressed. -/
def failedPins : Pins := fun i j => if bitOf i j = 0 then -5 else 0

theorem contained_failedPins_iff :
    (Contained failedPins (getKeystate failedPins 0).1 ∧
      Contained failedPins ((LeftHalf.init 0).getKeystate failedPins 0).1.buttonState) ↔
    ∀ i j, 0 ≤ failedPins i j := contained_iff (by decide) 0 (.init 0) 0

/-- All switches but the one at position 2 are taken for pressed. -/
theorem failed_reading_spreads :
    readMatrix failedPins = 0xfffffffb ∧ ¬Contained failedPins (getKeystate failedPins 0).1 := by
  refine ⟨by decide +kernel, ?_⟩
  intro h
  exact absurd h.lt (by decide +kernel)

end BleKeyboard
