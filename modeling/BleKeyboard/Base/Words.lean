import Mathlib.Data.BitVec

/-!
# Single bits of machine words

Firmware reads a bit by masking with `1 << i` and builds a word by or-ing
shifted bits in a loop. These lemmas turn both into `BitVec.getLsbD`, where the
rest of the development argues.
-/

namespace BleKeyboard.Base

variable {n : Nat}

/-- Masking with `1 << i` tests bit `i`. -/
theorem and_one_shiftLeft_ne_zero (w : BitVec n) {i : Nat} (hi : i < n) :
    w &&& (1#n <<< i) ≠ 0#n ↔ w.getLsbD i = true := by
  have hbit : ∀ j, j < n → (w &&& (1#n <<< i)).getLsbD j = (w.getLsbD j && decide (j = i)) := by
    intro j hj
    rw [BitVec.getLsbD_and, BitVec.getLsbD_shiftLeft]
    -- the mask is set at `i`, and clear below and above it
    rcases Nat.lt_trichotomy j i with h | h | h
    · simp [h, Nat.ne_of_lt h]
    · simp [h, hi, Nat.zero_lt_of_lt hi]
    · simp [hj, Nat.not_lt_of_gt h, (Nat.ne_of_lt h).symm, Nat.sub_eq_zero_iff_le, h]
  constructor
  · intro hne
    by_contra hoff
    refine hne (BitVec.eq_of_getLsbD_eq fun j hj => ?_)
    rw [hbit j hj]
    by_cases hj : j = i <;> simp_all
  · intro hon hzero
    have hi' := hbit i hi
    rw [hzero, hon] at hi'
    simp at hi'

/-- A loop whose turn for `a` sets bit `i` when `b a` says so, sets it when some
turn does. -/
theorem getLsbD_foldl {α : Type*} {g : BitVec n → α → BitVec n} {b : α → Bool} {i : Nat}
    (hg : ∀ w a, (g w a).getLsbD i = (w.getLsbD i || b a)) (l : List α) (w : BitVec n) :
    (l.foldl g w).getLsbD i = (w.getLsbD i || l.any b) := by
  induction l generalizing w with
  | nil => simp
  | cons a l ih => rw [List.foldl_cons, ih, hg, List.any_cons, Bool.or_assoc]

/-- A reading of 0 or 1, shifted into place. -/
theorem getLsbD_ofInt_shiftLeft {v : Int} (hv : v = 0 ∨ v = 1) {k : Nat} (hk : k < n) (i : Nat) :
    (BitVec.ofInt n v <<< k).getLsbD i = (decide (v = 1) && decide (i = k)) := by
  rcases hv with rfl | rfl
  · simp
  · rw [BitVec.getLsbD_shiftLeft]
    have hone : BitVec.ofInt n 1 = 1#n := by simp
    rw [hone, BitVec.getLsbD_one]
    rcases Nat.lt_trichotomy i k with h | h | h
    · simp [h, Nat.ne_of_lt h]
    · simp [h, hk, Nat.zero_lt_of_lt hk]
    · simp [Nat.sub_eq_zero_iff_le, h, (Nat.ne_of_lt h).symm]

/-- A small negative number has all bits from 8 on set. -/
theorem getLsbD_ofInt_of_neg {v : Int} (hneg : v < 0) (hsmall : -256 ≤ v) {i : Nat} (hlow : 8 ≤ i)
    (hhigh : i < 32) : (BitVec.ofInt 32 v).getLsbD i = true := by
  obtain ⟨r, hr⟩ : ∃ r : Nat, v = r - 256 := ⟨(v + 256).toNat, by omega⟩
  have hr256 : r < 2 ^ 8 := by omega
  have htoNat : (BitVec.ofInt 32 v).toNat = 2 ^ 8 * (2 ^ 24 - 1) + r := by
    rw [BitVec.toNat_ofInt, hr]
    omega
  rw [BitVec.getLsbD, htoNat, Nat.testBit_two_pow_mul_add _ hr256, if_neg (Nat.not_lt_of_le hlow),
    Nat.testBit_two_pow_sub_one, decide_eq_true_eq]
  omega

/-! ## Words in memory -/

/-- The bytes of a 32-bit word, lowest first. -/
def toBytesLE (w : BitVec 32) : List (BitVec 8) :=
  [w.extractLsb' 0 8, w.extractLsb' 8 8, w.extractLsb' 16 8, w.extractLsb' 24 8]

/-- The 32-bit word at the start of a byte list; `none` if there are fewer than
four bytes. -/
def readWordLE : List (BitVec 8) → Option (BitVec 32)
  | b0 :: b1 :: b2 :: b3 :: _ => some (b3 ++ b2 ++ b1 ++ b0)
  | _ => none

/-- Reading back the bytes of a word. -/
theorem readWordLE_toBytesLE (w : BitVec 32) : readWordLE (toBytesLE w) = some w := by
  unfold readWordLE toBytesLE
  refine congrArg some (BitVec.eq_of_getLsbD_eq fun i hi => ?_)
  simp only [BitVec.getLsbD_append, BitVec.getLsbD_extractLsb']
  -- which of the four bytes bit `i` lies in
  rcases Nat.lt_or_ge i 8 with h8 | h8
  · simp [h8]
  · rcases Nat.lt_or_ge i 16 with h16 | h16
    · have h : i - 8 < 8 := by omega
      simp [Nat.not_lt_of_le h8, h, show 8 + (i - 8) = i by omega]
    · rcases Nat.lt_or_ge i 24 with h24 | h24
      · have h : i - 8 - 8 < 8 := by omega
        have h' : ¬i - 8 < 8 := by omega
        simp [Nat.not_lt_of_le h8, h, h', show 16 + (i - 8 - 8) = i by omega]
      · have h : ¬i - 8 - 8 < 8 := by omega
        have h' : ¬i - 8 < 8 := by omega
        have h'' : i - 8 - 8 - 8 < 8 := by omega
        simp [Nat.not_lt_of_le h8, h, h', h'', show 24 + (i - 8 - 8 - 8) = i by omega]

/-- A word keeps its bits below `k` under the low mask `2 ^ k - 1`. -/
theorem eq_of_low_bits {v w : BitVec n} {k : Nat}
    (h : v.setWidth k = w.setWidth k) {i : Nat} (hi : i < k) : v.getLsbD i = w.getLsbD i := by
  have hbit := congrArg (fun b : BitVec k => b.getLsbD i) h
  simpa [hi] using hbit

end BleKeyboard.Base
