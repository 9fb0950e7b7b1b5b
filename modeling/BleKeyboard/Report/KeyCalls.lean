import BleKeyboard.Base.Machine
import BleKeyboard.Report.SlotTable

/-!
# The keyboard state under set and clear calls

`hid_kbd_state_key_set` and `hid_kbd_state_key_clear` treat the eight control codes as bits of
one byte, and all other codes as entries of the slot table: a set takes the first free slot, a
clear frees the first slot with its code. What the slots hold is a bag, whatever holes the
clears leave.

`key_calls_tabulate`: as long as every search finds what it looks for, the slots hold the codes
that were set and not cleared, and every call does its part and nothing else.
-/

namespace BleKeyboard

open Base

/-- A control code, 224 to 231. -/
def IsCtrl (key : Byte) : Prop := keyCtrlCodeMin ≤ key.toNat ∧ key.toNat ≤ keyCtrlCodeMax

instance (key : Byte) : Decidable (IsCtrl key) := inferInstanceAs (Decidable (_ ∧ _))

/-- A call of `hid_kbd_state_key_set` (`down`) or `hid_kbd_state_key_clear`. -/
structure KeyCall where
  down : Bool
  key : Byte
  deriving DecidableEq, Repr

namespace KeyCall

/-- What the call returns. -/
def run (c : KeyCall) (st : KeyboardState) : Except Fault (Int × KeyboardState) :=
  slotCall c.down c.key st

/-- A set finds a free slot, and a clear names a code that is in a slot. -/
def Admitted (c : KeyCall) (st : KeyboardState) : Prop :=
  IsCtrl c.key ∨
    if c.down then 0 ∈ st.keysState.toList else c.key ≠ 0 ∧ c.key ∈ st.keysState.toList

instance (c : KeyCall) (st : KeyboardState) : Decidable (c.Admitted st) :=
  inferInstanceAs (Decidable (_ ∨ _))

/-- The call does its part, and leaves the state `t`. -/
structure Does (c : KeyCall) (st t : KeyboardState) : Prop where
  returns : c.run st = .ok (0, t)
  /-- A control code moves its bit and nothing else, -/
  ctrl : IsCtrl c.key → t.keysState = st.keysState ∧ ∀ i < 8, t.ctrlKeysState.getLsbD i
    = if i = c.key.toNat - keyCtrlCodeMin then c.down else st.ctrlKeysState.getLsbD i
  /-- any other code moves no bit, -/
  other : ¬IsCtrl c.key → t.ctrlKeysState = st.ctrlKeysState
  /-- and to clear a code that has just been added gives the state back. -/
  restores : c.down = true → ¬IsCtrl c.key → c.key ∉ st.keysState.toList →
    run ⟨false, c.key⟩ t = .ok (0, st)

end KeyCall

/-- The calls, in any order. -/
def keyCalls : Machine KeyboardState KeyCall where
  init := .zero
  step st c :=
    match c.run st with
    | .ok (_, t) => some t
    | .error _ => none

/-- The codes, other than control codes and 0, of the calls so far. -/
structure KeyLog where
  wasSet : Multiset Byte
  wasCleared : Multiset Byte

/-- A call adds its code to one side. -/
def KeyLog.next (l : KeyLog) (_ : KeyboardState) (c : KeyCall) : KeyLog :=
  if IsCtrl c.key ∨ c.key = 0 then l
  else if c.down then { l with wasSet := c.key ::ₘ l.wasSet }
  else { l with wasCleared := c.key ::ₘ l.wasCleared }

/-! ## Control codes -/

section

variable {key : Byte} {st : KeyboardState}

theorem buttonCtrlCode_of_not_isCtrl (h : ¬IsCtrl key) : buttonCtrlCode key = 0 := if_neg h

/-- The mask of a control code is one bit. -/
theorem getLsbD_buttonCtrlCode (h : IsCtrl key) {i : Nat} (hi : i < 8) :
    (buttonCtrlCode key).getLsbD i = decide (i = key.toNat - keyCtrlCodeMin) := by
  have hmask : buttonCtrlCode key = 1#8 <<< (key.toNat - keyCtrlCodeMin) := if_pos h
  rw [hmask, BitVec.getLsbD_shiftLeft, BitVec.getLsbD_one, Bool.eq_iff_iff]
  simp only [Bool.and_eq_true, decide_eq_true_eq, Bool.not_eq_true', decide_eq_false_iff_not]
  omega

theorem buttonCtrlCode_ne_zero (h : IsCtrl key) : buttonCtrlCode key ≠ 0 := by
  intro hzero
  have hlt : key.toNat - keyCtrlCodeMin < 8 := Nat.lt_succ_of_le (Nat.sub_le_sub_right h.2 _)
  have hbit := getLsbD_buttonCtrlCode h hlt
  rw [hzero, decide_eq_true rfl] at hbit
  exact absurd (BitVec.getLsbD_zero.symm.trans hbit) Bool.false_ne_true

/-- A control code never gets to the slots. -/
theorem slotCall_of_isCtrl (h : IsCtrl key) (down : Bool) (st : KeyboardState) :
    slotCall down key st = .ok (0, { st with
      ctrlKeysState := setOrClearModByte st.ctrlKeysState down (buttonCtrlCode key) }) := by
  cases down with
  | true => exact if_pos (buttonCtrlCode_ne_zero h)
  | false => exact if_pos (buttonCtrlCode_ne_zero h)

end

/-! ## One call -/

namespace KeyCall

variable {c : KeyCall} {st t : KeyboardState}

theorem does_of_isCtrl (h : IsCtrl c.key) : ∃ t, c.Does st t ∧ t.keys = st.keys := by
  refine ⟨_, ⟨slotCall_of_isCtrl h c.down st, fun _ => ⟨rfl, ?_⟩, absurd h,
    fun _ hno => absurd h hno⟩, rfl⟩
  intro i hi
  simp only [getLsbD_setOrClearModByte _ _ _ hi, getLsbD_buttonCtrlCode h hi, decide_eq_true_eq]

/-- A set writes a free slot; if no other slot has the code, a clear finds it there. -/
theorem does_set {key : Byte} (h : ¬IsCtrl key) (hfree : 0 ∈ st.keysState.toList) :
    ∃ t, Does ⟨true, key⟩ st t ∧ t.keys = addKey key st.keys := by
  have hmask := buttonCtrlCode_of_not_isCtrl h
  obtain ⟨i, hi, hzero, hset⟩ := keySet_of_mem hmask hfree
  refine ⟨_, ⟨hset, fun hctrl => absurd hctrl h, fun _ => rfl, ?_⟩, ?_⟩
  · intro _ _ hnew
    let t : KeyboardState := { st with keysState := st.keysState.set i key }
    have hthere : key ∈ t.keysState.toList := Vector.mem_toList_iff.mpr (Vector.mem_set hi)
    obtain ⟨j, hj, hkey, hclear⟩ := keyClear_of_mem hmask hthere
    obtain rfl : i = j := by
      by_contra hne
      rw [Vector.getElem_set_ne hi hj hne] at hkey
      exact hnew (Vector.mem_toList_iff.mpr (hkey ▸ Vector.getElem_mem hj))
    refine hclear.trans (congrArg (fun v => Except.ok (0, { st with keysState := v })) ?_)
    rw [Vector.set_set, set_eq_self hi hzero]
  · obtain ⟨t, ht, -, hkeys⟩ := keySet_keys hmask (empty_mem_iff_card_bag_lt.mp hfree)
    obtain ⟨-, rfl⟩ := Prod.mk.inj (Except.ok.inj (hset.symm.trans ht))
    exact hkeys

theorem does_clear {key : Byte} (h : ¬IsCtrl key) (hne : key ≠ 0)
    (hthere : key ∈ st.keysState.toList) :
    ∃ t, Does ⟨false, key⟩ st t ∧ key ∈ st.keys ∧ t.keys = st.keys.erase key := by
  have hmem : key ∈ st.keys := mem_bag.mpr ⟨hthere, hne⟩
  have hin : if key = 0 then st.keys.card < keyPressMax else key ∈ st.keys := by
    rw [if_neg hne]
    exact hmem
  obtain ⟨t, ht, hctrl, hkeys⟩ := keyClear_keys (buttonCtrlCode_of_not_isCtrl h) hin
  rw [removeKey, if_neg hne] at hkeys
  refine ⟨t, ⟨ht, fun hctrl => absurd hctrl h, fun _ => hctrl, ?_⟩, hmem, hkeys⟩
  intro hdown
  cases hdown

/-- The call that is made is the one that does its part. -/
theorem Does.step_eq (h : c.Does st t) : keyCalls.step st c = some t := by
  show (match c.run st with
    | .ok (_, t) => some t
    | .error _ => none) = some t
  rw [h.returns]

end KeyCall

/-! ## Runs -/

/-- What is set is in the slots or has been cleared. -/
def KeyLog.Tallies (s : KeyboardState × KeyLog) : Prop :=
  s.1.keys + s.2.wasCleared = s.2.wasSet

/-- **One call**: it does its part, and the log still tallies. -/
theorem KeyLog.tallies_next {st : KeyboardState} {l : KeyLog} {c : KeyCall}
    (h : Tallies (st, l)) (hc : c.Admitted st) :
    ∃ t, c.Does st t ∧ Tallies (t, l.next st c) := by
  unfold Tallies at h ⊢
  dsimp only at h ⊢
  by_cases hctrl : IsCtrl c.key
  · obtain ⟨t, ht, hkeys⟩ : ∃ t, c.Does st t ∧ t.keys = st.keys :=
      KeyCall.does_of_isCtrl hctrl
    refine ⟨t, ht, ?_⟩
    rw [hkeys, next, if_pos (.inl hctrl)]
    exact h
  · have hfinds := hc.resolve_left hctrl
    obtain ⟨down, key⟩ := c
    cases down with
    | true =>
      obtain ⟨t, ht, hkeys⟩ := KeyCall.does_set hctrl hfinds
      refine ⟨t, ht, ?_⟩
      rw [hkeys, next, addKey]
      by_cases hzero : key = 0
      · -- 0 is written over 0
        rw [if_pos hzero, if_pos (.inr hzero)]
        exact h
      · rw [if_neg hzero, if_neg (not_or.mpr ⟨hctrl, hzero⟩), if_pos rfl, Multiset.cons_add, h]
    | false =>
      obtain ⟨hne, hthere⟩ := hfinds
      obtain ⟨t, ht, hmem, hkeys⟩ := KeyCall.does_clear hctrl hne hthere
      refine ⟨t, ht, ?_⟩
      rw [hkeys, next, if_neg (not_or.mpr ⟨hctrl, hne⟩), if_neg Bool.false_ne_true,
        Multiset.add_cons, ← Multiset.cons_add, Multiset.cons_erase hmem]
      exact h

/-- The calls in any order, each search finding what it looks for, with what they have set and
cleared. -/
def keyCalling : Machine (KeyboardState × KeyLog) KeyCall :=
  (keyCalls.recording ⟨0, 0⟩ KeyLog.next).under fun s c => c.Admitted s.1

/-- **The slots are a bag and the control byte a set**: in every state of a run, the slots hold
the codes that were set less those that were cleared, and whatever call comes next does its
part. -/
theorem key_calls_tabulate (cs : List KeyCall) :
    keyCalling.Always (fun s => s.1.keys = s.2.wasSet - s.2.wasCleared ∧
      ∀ c : KeyCall, c.Admitted s.1 → ∃ t, c.Does s.1 t) cs := by
  have hinit : KeyLog.Tallies (KeyboardState.zero, ⟨0, 0⟩) := by
    show KeyboardState.zero.keys + 0 = 0
    decide
  have htallies : keyCalling.Always KeyLog.Tallies cs := by
    refine Machine.alwaysFrom_of_step cs hinit ?_
    rintro ⟨st, l⟩ c ⟨t, l'⟩ h hstep
    obtain ⟨hc, hcall, rfl⟩ := Machine.recording_under_step.mp hstep
    obtain ⟨t', ht', hnext⟩ := KeyLog.tallies_next h hc
    obtain rfl : t' = t := Option.some.inj (ht'.step_eq.symm.trans hcall)
    exact hnext
  refine htallies.mono ?_
  rintro ⟨st, l⟩ h
  refine ⟨?_, fun c hc => ?_⟩
  · exact Multiset.eq_sub_of_add_eq h
  · obtain ⟨t, ht, -⟩ := KeyLog.tallies_next h hc
    exact ⟨t, ht⟩

/-- A code that is set twice is cleared once, from the first of its slots; 0 is written over 0
there, and the next code takes the slot. -/
example : (keyCalls.run [⟨true, keyA⟩, ⟨true, keyA⟩, ⟨false, keyA⟩, ⟨true, 0⟩, ⟨true, keyB⟩]).map
    (fun st => st.keysState.toList) = some [keyB, keyA, 0, 0, 0, 0] := by decide +kernel

end BleKeyboard
