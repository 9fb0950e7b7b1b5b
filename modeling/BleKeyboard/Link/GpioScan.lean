import BleKeyboard.Base.Machine
import BleKeyboard.Link.Matrix
import Mathlib.Logic.Function.Basic

/-!
# A scan, one GPIO operation at a time

`get_keystate` drives one row after the other and reads all columns while it does; switches
close and open in between. A column reads 1 if some row that is driven has a closed switch in it,
so a reading is about one switch only as long as no other row is driven.

- `scan_refines`: whatever the switches do meanwhile, a scan comes to what `readMatrix` makes of
  one look at each switch;
- `scan_steady`: a switch that does not move during a scan is found as it is.
-/

namespace BleKeyboard

open Base

/-- What `get_keystate` does to the pins. `getCol i j` reads column `j` for row `i`. -/
inductive GpioOp where
  | setRow (i : Fin numOfRow) (level : Bool)
  | getCol (i : Fin numOfRow) (j : Fin numOfCol)
  deriving DecidableEq

/-- The operations of a call of `get_keystate`, in order. -/
def scanOps : List GpioOp :=
  (List.finRange numOfRow).flatMap fun i =>
    .setRow i true :: (List.finRange numOfCol).map (GpioOp.getCol i) ++ [.setRow i false]

/-- The rows that are driven, the switches that are closed, the number of operations that the
scan has done, and `button_state`. -/
structure MatrixScan where
  driven : Fin numOfRow → Bool
  closed : Fin numOfRow → Fin numOfCol → Bool
  done : Nat
  buttonState : Word

/-- A switch moves, or the scan does its next operation; after the last one, it starts over. -/
inductive ScanEvent where
  | toggle (i : Fin numOfRow) (j : Fin numOfCol)
  | op
  deriving DecidableEq

namespace MatrixScan

/-- What `gpio_pin_get_dt` returns for a column. -/
def level (s : MatrixScan) (j : Fin numOfCol) : Int :=
  if (List.finRange numOfRow).any fun i => s.driven i && s.closed i j then 1 else 0

/-- One event. -/
def step (s : MatrixScan) : ScanEvent → MatrixScan
  | .toggle i j =>
    { s with closed := Function.update s.closed i (Function.update (s.closed i) j (!s.closed i j)) }
  | .op =>
    match scanOps[s.done]? with
    | none => { s with done := 0, buttonState := 0 }
    | some (.setRow i level) =>
      { s with driven := Function.update s.driven i level, done := s.done + 1 }
    | some (.getCol i j) =>
      { s with
        done := s.done + 1
        buttonState := s.buttonState ||| BitVec.ofInt 32 (s.level j)
          <<< (numOfBut + (numOfRow - 1 - i.val) * numOfCol + (numOfCol - 1 - j.val)) }

/-- `gpio_init` has taken all rows to 0. -/
def init (closed : Fin numOfRow → Fin numOfCol → Bool) : MatrixScan := ⟨fun _ => false, closed, 0, 0⟩

/-- The switches as the scan looked at them: each as it was at its last reading. -/
def look (looked : Fin numOfRow → Fin numOfCol → Bool) (s : MatrixScan) :
    ScanEvent → Fin numOfRow → Fin numOfCol → Bool
  | .toggle _ _ => looked
  | .op =>
    match scanOps[s.done]? with
    | some (.getCol i j) => Function.update looked i (Function.update (looked i) j (s.closed i j))
    | _ => looked

end MatrixScan

/-- The scans of a matrix one after the other, with each switch as it was last looked at. -/
def matrixScan (closed : Fin numOfRow → Fin numOfCol → Bool) :
    Machine (MatrixScan × (Fin numOfRow → Fin numOfCol → Bool)) ScanEvent :=
  (Machine.mk (.init closed) fun s e => some (MatrixScan.step s e)).recording (fun _ _ => false)
    MatrixScan.look

/-! ## The order of the operations -/

/-- The place of an operation in a scan. -/
def GpioOp.place : GpioOp → Nat
  | .setRow i true => 8 * i.val
  | .getCol i j => 8 * i.val + 1 + j.val
  | .setRow i false => 8 * i.val + 7

theorem length_scanOps : scanOps.length = 32 := by decide

theorem place_of_getElem? {k : Nat} {op : GpioOp} (h : scanOps[k]? = some op) : op.place = k := by
  obtain ⟨hk, rfl⟩ := List.getElem?_eq_some_iff.mp h
  have hall : ∀ k : Fin 32, (scanOps.get (k.cast length_scanOps.symm)).place = k.val := by
    decide
  exact hall ⟨k, hk.trans_eq length_scanOps⟩

theorem done_of_none {k : Nat} (h : scanOps[k]? = none) : 32 ≤ k :=
  length_scanOps.symm.trans_le (List.getElem?_eq_none_iff.mp h)

/-- The row is driven once `k` operations are done. -/
def drivenAt (k : Nat) (i : Fin numOfRow) : Bool := decide (8 * i.val < k ∧ k ≤ 8 * i.val + 7)

/-- At a reading, the row of the reading is the only one that is driven. -/
theorem drivenAt_getCol (i i' : Fin numOfRow) (j : Fin numOfCol) :
    drivenAt (GpioOp.getCol i j).place i' = true ↔ i' = i := by
  have hall : ∀ i i' : Fin numOfRow, ∀ j : Fin numOfCol,
      drivenAt (GpioOp.getCol i j).place i' = true ↔ i' = i := by
    decide
  exact hall i i' j

/-- Setting a row makes the difference between a place and the next. -/
theorem drivenAt_setRow (i : Fin numOfRow) (level : Bool) :
    Function.update (drivenAt (GpioOp.setRow i level).place) i level
      = drivenAt ((GpioOp.setRow i level).place + 1) := by
  funext i'
  have hall : ∀ i i' : Fin numOfRow, ∀ level,
      Function.update (drivenAt (GpioOp.setRow i level).place) i level i'
        = drivenAt ((GpioOp.setRow i level).place + 1) i' := by
    decide
  exact hall i i' level

/-- A reading makes none. -/
theorem drivenAt_getCol_succ (i : Fin numOfRow) (j : Fin numOfCol) :
    drivenAt ((GpioOp.getCol i j).place + 1) = drivenAt (GpioOp.getCol i j).place := by
  funext i'
  have hall : ∀ i i' : Fin numOfRow, ∀ j : Fin numOfCol,
      drivenAt ((GpioOp.getCol i j).place + 1) i' = drivenAt (GpioOp.getCol i j).place i' := by
    decide
  exact hall i i' j

/-- Readings of different switches have different places. -/
theorem place_getCol_inj {i i' : Fin numOfRow} {j j' : Fin numOfCol}
    (h : (GpioOp.getCol i j).place = (GpioOp.getCol i' j').place) : i = i' ∧ j = j' := by
  have hj : j.val < 6 := j.isLt
  have hj' : j'.val < 6 := j'.isLt
  have h : 8 * i.val + 1 + j.val = 8 * i'.val + 1 + j'.val := h
  exact ⟨Fin.ext (by omega), Fin.ext (by omega)⟩

theorem place_getCol_ne_setRow (i i' : Fin numOfRow) (j : Fin numOfCol) (level : Bool) :
    (GpioOp.getCol i j).place ≠ (GpioOp.setRow i' level).place := by
  have hj : j.val < 6 := j.isLt
  cases level
  · show 8 * i.val + 1 + j.val ≠ 8 * i'.val + 7
    omega
  · show 8 * i.val + 1 + j.val ≠ 8 * i'.val
    omega

/-! ## The invariant -/

/-- The readings of a scan that looks at the switches so. -/
def pinsAt (looked : Fin numOfRow → Fin numOfCol → Bool) : Pins := fun i j =>
  if looked i j then 1 else 0

theorem pinsAt_eq_one {looked : Fin numOfRow → Fin numOfCol → Bool} {i : Fin numOfRow}
    {j : Fin numOfCol} : pinsAt looked i j = 1 ↔ looked i j = true := by
  unfold pinsAt
  split <;> simp_all

/-- A new look at one switch. -/
theorem update_look (looked : Fin numOfRow → Fin numOfCol → Bool) (i i' : Fin numOfRow)
    (j j' : Fin numOfCol) (closed : Bool) :
    Function.update looked i (Function.update (looked i) j closed) i' j'
      = if i' = i ∧ j' = j then closed else looked i' j' := by
  by_cases hi : i' = i
  · subst hi
    rw [Function.update_self, Function.update_apply]
    simp
  · rw [Function.update_of_ne hi, if_neg fun h => hi h.1]

/-- In the middle of a scan: the row in turn is driven, and `button_state` has the switches that
have been read. -/
structure Scanned (s : MatrixScan) (looked : Fin numOfRow → Fin numOfCol → Bool) : Prop where
  done : s.done ≤ 32
  driven : s.driven = drivenAt s.done
  buttonState : ∀ p, s.buttonState.getLsbD p = true ↔
    ∃ i j, (GpioOp.getCol i j).place < s.done ∧ looked i j = true ∧ p = bitOf i j

namespace Scanned

variable {s : MatrixScan} {looked : Fin numOfRow → Fin numOfCol → Bool}

theorem init (closed : Fin numOfRow → Fin numOfCol → Bool) :
    Scanned (.init closed) fun _ _ => false where
  done := Nat.zero_le _
  driven := by
    funext i
    exact (decide_eq_false fun h => Nat.not_lt_zero _ h.1).symm
  buttonState p := by
    refine iff_of_false ?_ ?_
    · show ¬BitVec.getLsbD (0 : Word) p = true
      rw [show BitVec.getLsbD (0 : Word) p = false from BitVec.getLsbD_zero]
      exact Bool.false_ne_true
    · rintro ⟨i, j, -, hlooked, -⟩
      cases hlooked

/-- A reading is the state of its switch. -/
theorem level_eq (hs : Scanned s looked) {i : Fin numOfRow} {j : Fin numOfCol}
    (hplace : (GpioOp.getCol i j).place = s.done) : s.level j = if s.closed i j then 1 else 0 := by
  have hdriven : ∀ i', s.driven i' = true ↔ i' = i := by
    intro i'
    rw [hs.driven, ← hplace]
    exact drivenAt_getCol i i' j
  have hany : ((List.finRange numOfRow).any fun i' => s.driven i' && s.closed i' j)
      = s.closed i j := by
    rw [Bool.eq_iff_iff, List.any_eq_true]
    constructor
    · rintro ⟨i', -, hon⟩
      rw [Bool.and_eq_true, hdriven] at hon
      exact hon.1 ▸ hon.2
    · intro hclosed
      exact ⟨i, List.mem_finRange i, by rw [(hdriven i).mpr rfl, hclosed]; rfl⟩
  rw [MatrixScan.level, hany]

/-- The scan that is done has what `readMatrix` makes of the looks. -/
theorem buttonState_eq (hs : Scanned s looked) (hend : scanOps[s.done]? = none) :
    s.buttonState = readMatrix (pinsAt looked) := by
  have hpins : ∀ i j, pinsAt looked i j = 0 ∨ pinsAt looked i j = 1 := by
    intro i j
    unfold pinsAt
    split <;> simp
  have hdone := done_of_none hend
  refine BitVec.eq_of_getLsbD_eq fun p _ => ?_
  rw [Bool.eq_iff_iff, hs.buttonState, readMatrix_getLsbD hpins]
  simp only [List.any_eq_true, List.mem_finRange, true_and, Bool.and_eq_true, decide_eq_true_eq,
    pinsAt_eq_one]
  refine exists_congr fun i => exists_congr fun j => ?_
  have hplace : (GpioOp.getCol i j).place < s.done := by
    have hi : i.val < 4 := i.isLt
    have hj : j.val < 6 := j.isLt
    show 8 * i.val + 1 + j.val < s.done
    omega
  exact and_iff_right hplace

theorem setRow (hs : Scanned s looked) {i : Fin numOfRow} {level : Bool}
    (hplace : (GpioOp.setRow i level).place = s.done) (hlt : s.done < 32) :
    Scanned { s with driven := Function.update s.driven i level, done := s.done + 1 } looked where
  done := hlt
  driven := by
    show Function.update s.driven i level = drivenAt (s.done + 1)
    rw [hs.driven, ← hplace]
    exact drivenAt_setRow i level
  buttonState p := by
    refine (hs.buttonState p).trans (exists_congr fun i' => exists_congr fun j' => ?_)
    refine and_congr_left fun _ => ?_
    have hne := hplace ▸ place_getCol_ne_setRow i' i j' level
    show _ ↔ (GpioOp.getCol i' j').place < s.done + 1
    omega

theorem getCol (hs : Scanned s looked) {i : Fin numOfRow} {j : Fin numOfCol}
    (hplace : (GpioOp.getCol i j).place = s.done) (hlt : s.done < 32) :
    Scanned
      { s with
        done := s.done + 1
        buttonState := s.buttonState ||| BitVec.ofInt 32 (s.level j)
          <<< (numOfBut + (numOfRow - 1 - i.val) * numOfCol + (numOfCol - 1 - j.val)) }
      (Function.update looked i (Function.update (looked i) j (s.closed i j))) where
  done := hlt
  driven := by
    show s.driven = drivenAt (s.done + 1)
    rw [hs.driven, ← hplace, drivenAt_getCol_succ]
  buttonState p := by
    have hbit : bitOf i j < 32 := Nat.lt_trans (bitOf_lt i j) (by decide)
    have hlevel : s.level j = 0 ∨ s.level j = 1 := by
      unfold MatrixScan.level
      split <;> simp
    have hnew : (BitVec.ofInt 32 (s.level j)
        <<< (numOfBut + (numOfRow - 1 - i.val) * numOfCol + (numOfCol - 1 - j.val))).getLsbD p
          = (decide (s.level j = 1) && decide (p = bitOf i j)) := by
      rw [numOfBut, Nat.zero_add]
      exact getLsbD_ofInt_shiftLeft hlevel hbit p
    show (s.buttonState ||| _).getLsbD p = true ↔ _
    have hclosed : s.level j = 1 ↔ s.closed i j = true := by
      rw [hs.level_eq hplace]
      split <;> simp_all
    rw [BitVec.getLsbD_or, hnew, Bool.or_eq_true, hs.buttonState, Bool.and_eq_true,
      decide_eq_true_eq, decide_eq_true_eq, hclosed]
    constructor
    · rintro (⟨i', j', hlt, hlooked, hp⟩ | ⟨hclosed, hp⟩)
      · -- an earlier look, at another switch
        have hne : ¬(i' = i ∧ j' = j) := by
          rintro ⟨rfl, rfl⟩
          omega
        exact ⟨i', j', Nat.lt_succ_of_lt hlt, by rw [update_look, if_neg hne, hlooked], hp⟩
      · exact ⟨i, j, hplace.trans_lt (Nat.lt_succ_self _), by rw [update_look, if_pos ⟨rfl, rfl⟩,
          hclosed], hp⟩
    · rintro ⟨i', j', hlt, hlooked, hp⟩
      rw [update_look] at hlooked
      by_cases hsame : i' = i ∧ j' = j
      · obtain ⟨rfl, rfl⟩ := hsame
        rw [if_pos ⟨rfl, rfl⟩] at hlooked
        exact .inr ⟨hlooked, hp⟩
      · rw [if_neg hsame] at hlooked
        refine .inl ⟨i', j', ?_, hlooked, hp⟩
        have hne : (GpioOp.getCol i' j').place ≠ s.done := fun h =>
          hsame (place_getCol_inj (h.trans hplace.symm))
        have hlt : (GpioOp.getCol i' j').place < s.done + 1 := hlt
        omega

/-- **One event** keeps the invariant. -/
theorem step (hs : Scanned s looked) (e : ScanEvent) : Scanned (s.step e) (s.look looked e) := by
  cases e with
  | toggle i j => exact ⟨hs.done, hs.driven, hs.buttonState⟩
  | op =>
    unfold MatrixScan.step MatrixScan.look
    dsimp only
    cases hop : scanOps[s.done]? with
    | none =>
      -- the next scan begins as the first one did
      obtain ⟨-, -, hempty⟩ := Scanned.init s.closed
      have hlast : s.done = 32 := Nat.le_antisymm hs.done (done_of_none hop)
      refine ⟨Nat.zero_le _, ?_, fun p => (hempty p).trans ?_⟩
      · show s.driven = drivenAt 0
        rw [hs.driven, hlast]
        funext i
        decide +revert
      · refine iff_of_false ?_ ?_
        · rintro ⟨i, j, hlt, -⟩
          exact Nat.not_lt_zero _ hlt
        · rintro ⟨i, j, hlt, -⟩
          exact Nat.not_lt_zero _ hlt
    | some op =>
      have hplace := place_of_getElem? hop
      have hlt : s.done < 32 := by
        rw [← length_scanOps]
        exact (List.getElem?_eq_some_iff.mp hop).1
      cases op with
      | setRow i level => exact hs.setRow hplace hlt
      | getCol i j => exact hs.getCol hplace hlt

end Scanned

/-! ## Runs -/

theorem matrixScan_step {closed : Fin numOfRow → Fin numOfCol → Bool}
    {s t : MatrixScan × (Fin numOfRow → Fin numOfCol → Bool)} {e : ScanEvent}
    (h : (matrixScan closed).step s e = some t) : t = (s.1.step e, s.1.look s.2 e) := by
  obtain ⟨hstep, hlook⟩ := Machine.recording_step.mp h
  exact Prod.ext (Option.some.inj hstep).symm hlook

/-- **A scan under moving switches**: at every reading, in every run, no row but that of the
reading is driven; and when a scan is done, no row is driven, and `button_state` is what
`readMatrix` makes of the looks, one at each switch. -/
theorem scan_refines (closed : Fin numOfRow → Fin numOfCol → Bool) (es : List ScanEvent) :
    (matrixScan closed).Always (fun s =>
      (∀ i j, scanOps[s.1.done]? = some (.getCol i j) → ∀ i', s.1.driven i' = true ↔ i' = i) ∧
      (scanOps[s.1.done]? = none → (∀ i, s.1.driven i = false) ∧
        s.1.buttonState = readMatrix (pinsAt s.2))) es := by
  have hinv : (matrixScan closed).Always (fun s => Scanned s.1 s.2) es := by
    refine Machine.alwaysFrom_of_step es (Scanned.init closed) ?_
    intro s e t hs ht
    rw [matrixScan_step ht]
    exact hs.step e
  refine hinv.mono ?_
  intro s hs
  constructor
  · intro i j hop i'
    rw [hs.driven, ← place_of_getElem? hop]
    exact drivenAt_getCol i i' j
  · intro hend
    refine ⟨fun i => ?_, hs.buttonState_eq hend⟩
    rw [hs.driven, Nat.le_antisymm hs.done (done_of_none hend)]
    decide +revert

/-- The scan goes on without starting over, and the switch does not move. -/
def Steady (i : Fin numOfRow) (j : Fin numOfCol) (s : MatrixScan) (e : ScanEvent) : Prop :=
  e ≠ .toggle i j ∧ (e = .op → s.done < scanOps.length)

instance (i : Fin numOfRow) (j : Fin numOfCol) (s : MatrixScan) (e : ScanEvent) :
    Decidable (Steady i j s e) := inferInstanceAs (Decidable (_ ∧ (_ → _)))

/-- **One event** while a switch does not move: it stays as it is, and so does the look at it. -/
theorem steady_step {i : Fin numOfRow} {j : Fin numOfCol} {c : Bool} {s : MatrixScan}
    {looked : Fin numOfRow → Fin numOfCol → Bool} {e : ScanEvent} (hsteady : Steady i j s e)
    (hclosed : s.closed i j = c)
    (hlooked : (GpioOp.getCol i j).place < s.done → looked i j = c) :
    (s.step e).closed i j = c ∧
      ((GpioOp.getCol i j).place < (s.step e).done → s.look looked e i j = c) := by
  cases e with
  | toggle i' j' =>
    have hne : ¬(i = i' ∧ j = j') := by
      rintro ⟨rfl, rfl⟩
      exact hsteady.1 rfl
    refine ⟨?_, hlooked⟩
    show Function.update s.closed i' (Function.update (s.closed i') j' _) i j = c
    rw [update_look, if_neg hne, hclosed]
  | op =>
    unfold MatrixScan.step MatrixScan.look
    dsimp only
    cases hop : scanOps[s.done]? with
    | none => exact absurd (hsteady.2 rfl) (Nat.not_lt.mpr (List.getElem?_eq_none_iff.mp hop))
    | some op =>
      have hplace := place_of_getElem? hop
      cases op with
      | setRow i' level =>
        refine ⟨hclosed, fun hlt => hlooked ?_⟩
        have hne := hplace ▸ place_getCol_ne_setRow i i' j level
        have hlt : (GpioOp.getCol i j).place < s.done + 1 := hlt
        omega
      | getCol i' j' =>
        refine ⟨hclosed, fun hlt => ?_⟩
        have hlt : (GpioOp.getCol i j).place < s.done + 1 := hlt
        show Function.update looked i' (Function.update (looked i') j' (s.closed i' j')) i j = c
        rw [update_look]
        split
        · next hsame =>
          obtain ⟨rfl, rfl⟩ := hsame
          exact hclosed
        · next hsame =>
          refine hlooked ?_
          have hne : (GpioOp.getCol i j).place ≠ s.done := fun h =>
            hsame (place_getCol_inj (h.trans hplace.symm))
          omega

/-- **A switch that does not move** from the start of a scan to its end is found as it is, whatever
the others do. -/
theorem scan_steady (closed : Fin numOfRow → Fin numOfCol → Bool) (i : Fin numOfRow)
    (j : Fin numOfCol) (es₀ es : List ScanEvent)
    {s t : MatrixScan × (Fin numOfRow → Fin numOfCol → Bool)}
    (hstart : (matrixScan closed).run es₀ = some s) (hdone : s.1.done = 0)
    (hsteady : (matrixScan closed).AlongFrom (fun s e _ => Steady i j s.1 e) s es)
    (hrun : (matrixScan closed).runFrom s es = some t) (hend : t.1.done = scanOps.length) :
    t.1.buttonState.getLsbD (bitOf i j) = s.1.closed i j := by
  have hscanned : Scanned s.1 s.2 := by
    have hinv : (matrixScan closed).Always (fun s => Scanned s.1 s.2) es₀ := by
      refine Machine.alwaysFrom_of_step es₀ (Scanned.init closed) ?_
      intro s e t hs ht
      rw [matrixScan_step ht]
      exact hs.step e
    exact hinv.last hstart
  have hinv : (matrixScan closed).AlwaysFrom (fun t => Scanned t.1 t.2 ∧
      t.1.closed i j = s.1.closed i j ∧
      ((GpioOp.getCol i j).place < t.1.done → t.2 i j = s.1.closed i j)) s es := by
    refine Machine.AlwaysFrom.of_inv ⟨hscanned, rfl, fun hlt => ?_⟩ hsteady ?_
    · rw [hdone] at hlt
      exact absurd hlt (Nat.not_lt_zero _)
    · rintro u e v ⟨hu, hclosed, hlooked⟩ hsteady hv
      rw [matrixScan_step hv]
      exact ⟨hu.step e, steady_step hsteady hclosed hlooked⟩
  obtain ⟨ht, -, hlooked⟩ := hinv.last hrun
  have hplace : (GpioOp.getCol i j).place < t.1.done := by
    have hi : i.val < 4 := i.isLt
    have hj : j.val < 6 := j.isLt
    rw [hend, length_scanOps]
    show 8 * i.val + 1 + j.val < 32
    omega
  rw [Bool.eq_iff_iff, ht.buttonState, ← hlooked hplace]
  constructor
  · rintro ⟨i', j', -, hon, hbit⟩
    obtain ⟨hi, hj⟩ := (bitOf_eq_iff ⟨bitOf i j, bitOf_lt i j⟩ i j).mp rfl
    obtain ⟨hi', hj'⟩ := (bitOf_eq_iff ⟨bitOf i j, bitOf_lt i j⟩ i' j').mp hbit
    have hsame : i = i' ∧ j = j' := ⟨hi.trans hi'.symm, hj.trans hj'.symm⟩
    rw [hsame.1, hsame.2]
    exact hon
  · intro hon
    exact ⟨i, j, hplace, hon, rfl⟩

/-- The switch at position 7 stays closed, and the one at 13 bounces while the scan goes over it. -/
theorem scan_steady_bounce :
    let closed : Fin numOfRow → Fin numOfCol → Bool := fun i j => i == rowOf 7 && j == colOf 7
    let bounce := ScanEvent.toggle (rowOf 13) (colOf 13)
    let es := bounce :: List.replicate 12 .op ++ [bounce] ++ List.replicate 20 .op
    ((matrixScan closed).run es).map (fun t => t.1.buttonState.getLsbD 7) = some true := by
  intro closed bounce es
  have hend : ((matrixScan closed).run es).map (fun t => t.1.done) = some scanOps.length := by
    decide +kernel
  obtain ⟨t, hrun, hdone⟩ := Option.map_eq_some_iff.mp hend
  rw [hrun]
  exact congrArg some
    (scan_steady closed (rowOf 7) (colOf 7) [] es rfl rfl (by decide +kernel) hrun hdone)

end BleKeyboard
