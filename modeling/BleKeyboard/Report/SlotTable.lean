import BleKeyboard.Report.FanOut

/-!
# What the slot searches and `create_report` do

One specification lemma per function of the report path, so that nothing above
this file unfolds one:

- `findSlot_of_mem`, `findSlot_of_not_mem`: a search finds its byte inside the table, or
  leaves it;
- `keySet_*`, `keyClear_*`: the effect of a set or clear on the table as a bag;
- `createReport_layerKey`, `createReport_modifier`, `createReport_plain`: an edge
  does nothing, updates the control byte, or makes one set or clear call;
- `createReport_cases`, `createReports_inv`: what a call that goes through sends, and what
  successive calls keep.
-/

namespace BleKeyboard

open Base

/-! ## The searches -/

theorem loadSlot_of_lt (st : KeyboardState) {i : Nat} (hi : i < keyPressMax) :
    loadSlot st i = .ok st.keysState[i] := by
  rw [loadSlot, dif_pos hi]
  rfl

/-- The search, from any index whose predecessors have been ruled out. -/
theorem findSlot_from (st : KeyboardState) (v : Byte) :
    ∀ n i, i ≤ keyPressMax → keyPressMax < n + i →
      (∀ j (hj : j < keyPressMax), j < i → st.keysState[j] ≠ v) →
      (∃ i', ∃ hi : i' < keyPressMax, st.keysState[i'] = v ∧ findSlot st v n i = .ok (some i')) ∨
      ((∀ j (hj : j < keyPressMax), st.keysState[j] ≠ v) ∧
        findSlot st v n i = .error (.keysState keyPressMax)) := by
  intro n
  -- induction on the turns left: they outlast the table, so the search faults or finds
  induction n with
  | zero =>
    intro i hle hlt
    omega
  | succ n ih =>
    intro i hle hlt hbefore
    rw [findSlot]
    by_cases hi : i < keyPressMax
    · rw [loadSlot_of_lt st hi]
      show _ ∨ _ ∧ (if st.keysState[i] = v then Except.ok (some i)
        else findSlot st v n (i + 1)) = _
      by_cases hv : st.keysState[i] = v
      · exact .inl ⟨i, hi, hv, if_pos hv⟩
      · have hnext : ∀ j (hj : j < keyPressMax), j < i + 1 → st.keysState[j] ≠ v := by
          intro j hj hji
          rcases Nat.lt_succ_iff_lt_or_eq.mp hji with hlt | rfl
          · exact hbefore j hj hlt
          · exact hv
        rcases ih (i + 1) hi (by omega) hnext with ⟨i', hi', hv', hf⟩ | ⟨habs, hf⟩
        · exact .inl ⟨i', hi', hv', (if_neg hv).trans hf⟩
        · exact .inr ⟨habs, (if_neg hv).trans hf⟩
    · -- the first index past the table
      obtain rfl : i = keyPressMax := by omega
      exact .inr ⟨fun j hj => hbefore j hj hj, rfl⟩

/-- **A search that ends**: `v` is in a slot, and the search finds such a slot. -/
theorem findSlot_of_mem {st : KeyboardState} {v : Byte} (hv : v ∈ st.keysState.toList) :
    ∃ i, ∃ hi : i < keyPressMax, st.keysState[i] = v ∧
      findSlot st v keyCtrlCodeMax 0 = .ok (some i) := by
  rcases findSlot_from st v keyCtrlCodeMax 0 (Nat.zero_le _) (by decide)
    (fun j _ hj => absurd hj (Nat.not_lt_zero j)) with h | ⟨habs, -⟩
  · exact h
  · rw [Vector.mem_toList_iff] at hv
    obtain ⟨i, hi, heq⟩ := Vector.getElem_of_mem hv
    exact absurd heq (habs i hi)

/-- **A search that does not**: `v` is in no slot, and the search reads past the last
one. The bound `KEY_CTRL_CODE_MAX` never ends the loop. -/
theorem findSlot_of_not_mem {st : KeyboardState} {v : Byte} (hv : v ∉ st.keysState.toList) :
    findSlot st v keyCtrlCodeMax 0 = .error (.keysState keyPressMax) := by
  rcases findSlot_from st v keyCtrlCodeMax 0 (Nat.zero_le _) (by decide)
    (fun j _ hj => absurd hj (Nat.not_lt_zero j)) with ⟨i, hi, heq, -⟩ | ⟨-, hf⟩
  · rw [← heq] at hv
    exact absurd (by simp) hv
  · exact hf

theorem storeSlot_of_lt (st : KeyboardState) {i : Nat} (hi : i < keyPressMax) (key : Byte) :
    storeSlot st i key = { st with keysState := st.keysState.set i key } := by
  have hset : st.keysState.setIfInBounds i key = st.keysState.set i key := by
    ext j hj
    simp [Vector.getElem_setIfInBounds, Vector.getElem_set]
  rw [storeSlot, hset]

/-! ## Setting and clearing a key -/

section

variable {key : Byte} {st : KeyboardState}

/-- Only the eight control codes have a mask. -/
theorem buttonCtrlCode_eq_zero (h : key.toNat < keyCtrlCodeMin) : buttonCtrlCode key = 0 := by
  rw [buttonCtrlCode, if_neg (fun hk => Nat.not_le_of_lt h hk.1)]

theorem keySet_of_not_mem (hctrl : buttonCtrlCode key = 0) (h0 : 0 ∉ st.keysState.toList) :
    hidKbdStateKeySet key st = .error (.keysState keyPressMax) := by
  simp only [hidKbdStateKeySet, hctrl, ne_eq, not_true_eq_false, if_false,
    findSlot_of_not_mem h0]
  rfl

theorem keySet_of_mem (hctrl : buttonCtrlCode key = 0) (h0 : 0 ∈ st.keysState.toList) :
    ∃ i, ∃ _ : i < keyPressMax, st.keysState[i] = 0 ∧
      hidKbdStateKeySet key st
        = .ok (0, { st with keysState := st.keysState.set i key }) := by
  obtain ⟨i, hi, hv, hf⟩ := findSlot_of_mem h0
  refine ⟨i, hi, hv, ?_⟩
  simp only [hidKbdStateKeySet, hctrl, ne_eq, not_true_eq_false, if_false, hf]
  rw [← storeSlot_of_lt st hi]
  rfl

theorem keyClear_of_not_mem (hctrl : buttonCtrlCode key = 0) (hk : key ∉ st.keysState.toList) :
    hidKbdStateKeyClear key st = .error (.keysState keyPressMax) := by
  simp only [hidKbdStateKeyClear, hctrl, ne_eq, not_true_eq_false, if_false,
    findSlot_of_not_mem hk]
  rfl

theorem keyClear_of_mem (hctrl : buttonCtrlCode key = 0) (hk : key ∈ st.keysState.toList) :
    ∃ i, ∃ _ : i < keyPressMax, st.keysState[i] = key ∧
      hidKbdStateKeyClear key st
        = .ok (0, { st with keysState := st.keysState.set i 0 }) := by
  obtain ⟨i, hi, hv, hf⟩ := findSlot_of_mem hk
  refine ⟨i, hi, hv, ?_⟩
  simp only [hidKbdStateKeyClear, hctrl, ne_eq, not_true_eq_false, if_false, hf]
  rw [← storeSlot_of_lt st hi]
  rfl

end

/-- The bag of keys the slot table holds. -/
def KeyboardState.keys (st : KeyboardState) : Multiset Byte := bag 0 st.keysState

/-- A bag of key codes with one more key down; `KEY_NONE` is not a key. -/
def addKey (key : Byte) (b : Multiset Byte) : Multiset Byte := if key = 0 then b else key ::ₘ b

/-- A bag of key codes with one key up. -/
def removeKey (key : Byte) (b : Multiset Byte) : Multiset Byte :=
  if key = 0 then b else b.erase key

section

variable {key : Byte} {st : KeyboardState}

/-- With a free slot, a set adds its key to the bag and touches nothing else. -/
theorem keySet_keys (hctrl : buttonCtrlCode key = 0) (hfree : st.keys.card < keyPressMax) :
    ∃ st', hidKbdStateKeySet key st = .ok (0, st') ∧
      st'.ctrlKeysState = st.ctrlKeysState ∧ st'.keys = addKey key st.keys := by
  obtain ⟨i, hi, hz, hset⟩ := keySet_of_mem hctrl (empty_mem_iff_card_bag_lt.mpr hfree)
  refine ⟨_, hset, rfl, ?_⟩
  unfold addKey KeyboardState.keys
  by_cases hk : key = 0
  · subst hk
    rw [if_pos rfl, set_eq_self hi hz]
  · rw [if_neg hk]
    exact bag_set_of_empty hi hz hk

/-- A clear takes a key that is in the bag out of it; `KEY_NONE` needs a free
slot to be found. -/
theorem keyClear_keys (hctrl : buttonCtrlCode key = 0)
    (hin : if key = 0 then st.keys.card < keyPressMax else key ∈ st.keys) :
    ∃ st', hidKbdStateKeyClear key st = .ok (0, st') ∧
      st'.ctrlKeysState = st.ctrlKeysState ∧ st'.keys = removeKey key st.keys := by
  have hmem : key ∈ st.keysState.toList := by
    by_cases hk : key = 0
    · rw [if_pos hk] at hin
      exact hk ▸ empty_mem_iff_card_bag_lt.mpr hin
    · rw [if_neg hk] at hin
      exact (mem_bag.mp hin).1
  obtain ⟨i, hi, hv, hclear⟩ := keyClear_of_mem hctrl hmem
  refine ⟨_, hclear, rfl, ?_⟩
  unfold removeKey KeyboardState.keys
  by_cases hk : key = 0
  · subst hk
    rw [if_pos rfl, set_eq_self hi hv]
  · rw [if_neg hk]
    exact bag_set_empty hi hv hk

end

/-! ## `create_report` by kind of position -/

section

variable (sendErr : Nat → Int) (modes : ConnModes) (layer : Fin 4) {c : Call} (hid : Hid)

theorem createReport_layerKey (hc : isLayerKey c.pos = true) :
    createReport sendErr modes layer c hid = .ok hid := by
  unfold createReport
  simp only [isLayerKey, Call.pos, Bool.or_eq_true] at hc
  rcases hc with hc | hc
  · rw [if_pos hc]
  · by_cases hl : (c.lOrR && c.position == 22) = true
    · rw [if_pos hl]
    · rw [if_neg hl, if_pos hc]

/-- Past the two early returns. -/
theorem createReport_of_not_layerKey (hc : isLayerKey c.pos = false) (hpos : c.position < 24) :
    createReport sendErr modes layer c hid =
      (if isModChr c.lOrR c.position then
        .ok { implicitShift layer c hid.kbd with
          ctrlKeysState := setOrClearModByte (implicitShift layer c hid.kbd).ctrlKeysState
            c.down (keyCode layer c.pos) }
      else
        buttonTextChange c.down c.lOrR layer (c.position / 6) (c.position % 6)
          (implicitShift layer c hid.kbd)).map
        fun st => (keyReportSend sendErr modes { hid with kbd := st }).2 := by
  simp only [isLayerKey, Call.pos, Bool.or_eq_false_iff] at hc
  unfold createReport
  rw [if_neg (by simp [hc.1]), if_neg (by simp [hc.2])]
  -- inside the arrays the load succeeds, here and again in `button_text_change`
  have hload : loadKeyMap c.lOrR layer (c.position / 6) (c.position % 6)
      = .ok (keyCode layer c.pos) := by
    rw [loadKeyMap]
    rw [show keyAt (keyMap c.lOrR) layer (c.position / 6) (c.position % 6)
      = some (keyCode layer c.pos) from keyAt_keyMap layer (p := c.pos) hpos]
  simp only [hload]
  split
  · rfl
  · show (buttonTextChange _ _ _ _ _ _).bind _ = _
    cases buttonTextChange c.down c.lOrR layer (c.position / 6) (c.position % 6)
      (implicitShift layer c hid.kbd) <;> rfl

/-- The implicit shift only concerns row 0, which has no modifier key. -/
theorem implicitShift_of_modifier (st : KeyboardState) (hmod : isModChr c.lOrR c.position = true) :
    implicitShift layer c st = st := by
  have hrow : c.position / 6 ≠ 0 := by
    unfold isModChr at hmod
    split at hmod
    · simp only [Bool.or_eq_true, beq_iff_eq] at hmod
      omega
    · simp only [beq_iff_eq] at hmod
      omega
  simp [implicitShift, hrow]

@[simp] theorem implicitShift_keysState (st : KeyboardState) :
    (implicitShift layer c st).keysState = st.keysState := by
  unfold implicitShift
  simp only
  split <;> rfl

@[simp] theorem implicitShift_keys (st : KeyboardState) :
    (implicitShift layer c st).keys = st.keys := by
  simp [KeyboardState.keys]

theorem implicitShift_of_layer_ne (st : KeyboardState) (hl : layer ≠ 2) :
    implicitShift layer c st = st := by
  simp [implicitShift, hl]

/-- A modifier edge updates the control byte and reports. -/
theorem createReport_modifier (hmod : isModChr c.lOrR c.position = true)
    (hpos : c.position < 24) :
    ∃ hid', createReport sendErr modes layer c hid = .ok hid' ∧
      hid'.kbd.keysState = hid.kbd.keysState ∧
      hid'.kbd.ctrlKeysState
        = setOrClearModByte hid.kbd.ctrlKeysState c.down (keyCode layer c.pos) := by
  have hlayer : isLayerKey c.pos = false := isLayerKey_of_modifier hmod
  rw [createReport_of_not_layerKey sendErr modes layer hid hlayer hpos, if_pos hmod,
    implicitShift_of_modifier layer _ hmod]
  exact ⟨_, rfl, by rw [keyReportSend_kbd sendErr modes], by rw [keyReportSend_kbd sendErr modes]⟩

/-- The set or clear call an edge of a plain position makes. -/
def slotCall (down : Bool) (key : Byte) (st : KeyboardState) :
    Except Fault (Int × KeyboardState) :=
  if down then hidKbdStateKeySet key st else hidKbdStateKeyClear key st

/-- A slot call that goes through leaves the modifier byte alone, and puts its key into the
bag or takes it out. -/
theorem slotCall_spec {down : Bool} {key : Byte} {st : KeyboardState} {r : Int × KeyboardState}
    (hctrl : buttonCtrlCode key = 0) (hok : slotCall down key st = .ok r) :
    r.2.ctrlKeysState = st.ctrlKeysState ∧
      r.2.keys = if down then addKey key st.keys else removeKey key st.keys := by
  unfold slotCall at hok
  cases down with
  | true =>
    rw [if_pos rfl] at hok ⊢
    by_cases h0 : 0 ∈ st.keysState.toList
    · obtain ⟨st', hset, hst'⟩ := keySet_keys hctrl (empty_mem_iff_card_bag_lt.mp h0)
      rw [← Except.ok.inj (hset.symm.trans hok)]
      exact hst'
    · rw [keySet_of_not_mem hctrl h0] at hok
      cases hok
  | false =>
    rw [if_neg Bool.false_ne_true] at hok ⊢
    by_cases hk : key ∈ st.keysState.toList
    · have hin : if key = 0 then st.keys.card < keyPressMax else key ∈ st.keys := by
        split
        · next h0 => exact empty_mem_iff_card_bag_lt.mp (h0 ▸ hk)
        · next h0 => exact mem_bag.mpr ⟨hk, h0⟩
      obtain ⟨st', hclear, hst'⟩ := keyClear_keys hctrl hin
      rw [← Except.ok.inj (hclear.symm.trans hok)]
      exact hst'
    · rw [keyClear_of_not_mem hctrl hk] at hok
      cases hok

/-- One key through `hid_buttons_press` or `hid_buttons_release`. -/
theorem buttonTextChange_eq (down : Bool) (st : KeyboardState) {p : Pos} (hpos : p.2 < 24) :
    buttonTextChange down p.1 layer (p.2 / 6) (p.2 % 6) st
      = (slotCall down (keyCode layer p) st).map Prod.snd := by
  have hload : loadKeyMap p.1 layer (p.2 / 6) (p.2 % 6) = .ok (keyCode layer p) := by
    rw [loadKeyMap, keyAt_keyMap layer hpos]
  unfold buttonTextChange slotCall
  rw [hload]
  -- one key: the loop of `hid_buttons_*` ends after it, whatever it returned
  cases down with
  | true =>
    show ((hidKbdStateKeySet (keyCode layer p) st).bind _).bind _ = _
    cases hset : hidKbdStateKeySet (keyCode layer p) st with
    | error f => rfl
    | ok r =>
      show (if r.1 ≠ 0 then Except.ok (r.1, r.2) else hidButtonsPress [] r.2).bind _ = .ok r.2
      split <;> rfl
  | false =>
    show ((hidKbdStateKeyClear (keyCode layer p) st).bind _).bind _ = _
    cases hclear : hidKbdStateKeyClear (keyCode layer p) st with
    | error f => rfl
    | ok r =>
      show (if r.1 ≠ 0 then Except.ok (r.1, r.2) else hidButtonsRelease [] r.2).bind _ = .ok r.2
      split <;> rfl

/-- A plain edge makes one set or clear call with its key code, then reports. -/
theorem createReport_plain (hc : isPlain c.pos = true) (hpos : c.position < 24) :
    createReport sendErr modes layer c hid
      = (slotCall c.down (keyCode layer c.pos) (implicitShift layer c hid.kbd)).map
          (fun r => (keyReportSend sendErr modes { hid with kbd := r.2 }).2) := by
  obtain ⟨hlayer, hmod⟩ := isPlain_iff.mp hc
  have hmod : ¬isModChr c.lOrR c.position = true := by
    rw [show isModChr c.lOrR c.position = false from hmod]
    exact Bool.false_ne_true
  rw [createReport_of_not_layerKey sendErr modes layer hid hlayer hpos, if_neg hmod,
    show buttonTextChange c.down c.lOrR layer (c.position / 6) (c.position % 6)
        (implicitShift layer c hid.kbd)
      = (slotCall c.down (keyCode layer c.pos) (implicitShift layer c hid.kbd)).map Prod.snd
      from buttonTextChange_eq layer c.down _ (p := c.pos) hpos]
  cases slotCall c.down (keyCode layer c.pos) (implicitShift layer c hid.kbd) <;> rfl

end

/-! ## Calls that go through -/

section

variable {sendErr : Nat → Int} {modes : ConnModes} {layer : Fin 4} {c : Call} {hid hid' : Hid}

/-- A position past the last row is looked up outside the key map. -/
theorem position_lt_of_createReport (hok : createReport sendErr modes layer c hid = .ok hid') :
    c.position < 24 := by
  by_contra hpos
  have hrow : ¬c.position / 6 < 4 := by omega
  have hout : loadKeyMap c.lOrR layer (c.position / 6) (c.position % 6)
      = .error (.keyMap layer (c.position / 6) (c.position % 6)) := by
    have hnone : keyAt (keyMap c.lOrR) layer (c.position / 6) (c.position % 6) = none := by
      simp [keyAt, hrow]
    rw [loadKeyMap, hnone]
  have hleft : ¬(c.lOrR && c.position == 22) = true := by simp; omega
  have hright : ¬(!c.lOrR && c.position == 19) = true := by simp; omega
  rw [createReport, if_neg hleft, if_neg hright] at hok
  simp only [hout] at hok
  cases hok

/-- A call changes nothing, or sends a report of the new state. -/
theorem createReport_cases (hok : createReport sendErr modes layer c hid = .ok hid') :
    hid' = hid ∨ ∃ st, hid' = (keyReportSend sendErr modes { hid with kbd := st }).2 := by
  have hpos := position_lt_of_createReport hok
  by_cases hlayer : isLayerKey c.pos = true
  · rw [createReport_layerKey sendErr modes layer hid hlayer] at hok
    exact .inl (Except.ok.inj hok).symm
  · rw [createReport_of_not_layerKey sendErr modes layer hid
      (Bool.eq_false_of_not_eq_true hlayer) hpos] at hok
    obtain ⟨st, -, rfl⟩ := exceptMap_eq_ok hok
    exact .inr ⟨st, rfl⟩

/-- What every call keeps, successive calls keep. -/
theorem createReports_inv {P : Hid → Prop} {cs : List Call} (hP : P hid)
    (hstep : ∀ c hid hid', P hid → createReport sendErr modes layer c hid = .ok hid' → P hid')
    (hok : createReports sendErr modes layer cs hid = .ok hid') : P hid' := by
  induction cs generalizing hid with
  | nil =>
    obtain rfl := Except.ok.inj hok
    exact hP
  | cons c cs ih =>
    rw [createReports, List.foldlM_cons] at hok
    obtain ⟨hid₁, hone, hrest⟩ := exceptBind_eq_ok hok
    exact ih (hstep c hid hid₁ hP hone) hrest

end

end BleKeyboard
