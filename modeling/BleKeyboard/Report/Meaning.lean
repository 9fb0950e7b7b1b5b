import BleKeyboard.Base.Controls
import BleKeyboard.Report.BaseLayer
import BleKeyboard.Report.Usages

/-!
# What the host reads

A host knows the keyboard by its report map: a report says which usages are on, no more. This
file reads the reports of the firmware in that way.

- `mem_usages_keyReport`: a report says the modifiers of the control byte, and the keys of the
  slots that are within the limit;
- `usages_eq_iff`: two keyboard states within the limit say the same exactly if they have the
  same modifiers and the same keys, in whatever slots;
- `reports_read`: every report that is sent says all of its control byte and its slots;
- `ShowsKeys.usages`: a state that shows the switches on the base layer says the usages of those
  that are down.
-/

namespace BleKeyboard

open Base

universe u

/-- The usage page of keys and modifiers. -/
def keyboardPage : Nat := 0x07

/-- The usages that an input report says are on. -/
def inputUsages (report : List Byte) : List Usage := (usagesIn .input reportMap report).getD []

/-- The fields of an input report: the modifiers from Left Control on, padding, and the keys. -/
theorem namedFields_reportMap : namedFields .input reportMap = some
    [⟨⟨⟨0, 1, 1, 8⟩, false, false⟩, 7, 0xe0, 0xe7⟩, ⟨⟨⟨0, 1, 8, 1⟩, true, true⟩, 7, 0, 0⟩,
      ⟨⟨⟨0, 101, 8, 6⟩, false, true⟩, 7, 0, 101⟩] := by
  decide

/-! ## One report -/

/-- The control byte of a report. -/
theorem bit_keyReport (st : KeyboardState) {i : Nat} (hi : i < 8) :
    ofBytesLE (keyReport st) >>> i % 2 = (st.ctrlKeysState.getLsbD i).toNat := by
  have hlow : (ofBytesLE (keyReport st)).testBit i = st.ctrlKeysState.toNat.testBit i := by
    have hmod : ofBytesLE (keyReport st) % 2 ^ 8 = st.ctrlKeysState.toNat := by
      have hbyte := ofBytesLE_byte (keyReport st) 0
      rwa [Nat.mul_zero, Nat.shiftRight_zero] at hbyte
    rw [← hmod, Nat.testBit_mod_two_pow, decide_eq_true hi, Bool.true_and]
  rw [BitVec.getLsbD, ← hlow, Nat.testBit_eq_decide_div_mod_eq, Nat.shiftRight_eq_div_pow]
  rcases Nat.mod_two_eq_zero_or_one (ofBytesLE (keyReport st) / 2 ^ i) with h | h <;> rw [h] <;> rfl

/-- A usage that the control byte says is on. -/
def IsModifierOf (ctrl : Byte) (u : Usage) : Prop :=
  u.page = keyboardPage ∧ ∃ i < 8, ctrl.getLsbD i = true ∧ u.id = 0xe0 + i

/-- A usage that the slots say is on. -/
def IsKeyOf (st : KeyboardState) (u : Usage) : Prop :=
  u.page = keyboardPage ∧ ∃ key ∈ st.keysState.toList, key ≠ 0 ∧ key.toNat ≤ 101 ∧ u.id = key.toNat

theorem mem_usages_modifiers {st : KeyboardState} {u : Usage} :
    u ∈ NamedField.usages ⟨⟨⟨0, 1, 1, 8⟩, false, false⟩, 7, 0xe0, 0xe7⟩ (ofBytesLE (keyReport st)) 0
      ↔ IsModifierOf st.ctrlKeysState u := by
  have hcontrol : ∀ i < 8, NamedField.control ⟨⟨⟨0, 1, 1, 8⟩, false, false⟩, 7, 0xe0, 0xe7⟩
      (Field.valueAt ⟨⟨0, 1, 1, 8⟩, false, false⟩ (ofBytesLE (keyReport st)) 0 i) i = some u.id ↔
        st.ctrlKeysState.getLsbD i = true ∧ u.id = 0xe0 + i := by
    intro i hi
    have hvalue : Field.valueAt ⟨⟨0, 1, 1, 8⟩, false, false⟩ (ofBytesLE (keyReport st)) 0 i
        = (st.ctrlKeysState.getLsbD i).toNat := by
      rw [← bit_keyReport st hi, Field.valueAt, Nat.zero_add, Nat.one_mul, Nat.pow_one]
    rw [hvalue, NamedField.control, if_neg Bool.false_ne_true]
    cases st.ctrlKeysState.getLsbD i <;> simp [eq_comm]
  rw [NamedField.mem_usages rfl]
  constructor
  · rintro ⟨hpage, -, -, i, hi, hbit⟩
    exact ⟨hpage, i, hi, (hcontrol i hi).mp hbit⟩
  · rintro ⟨hpage, i, hi, hbit, hid⟩
    have hmax : u.id ≤ 0xe7 := by omega
    exact ⟨hpage, by omega, hmax, i, hi, (hcontrol i hi).mpr ⟨hbit, hid⟩⟩

theorem mem_usages_keys {st : KeyboardState} {u : Usage} :
    u ∈ NamedField.usages ⟨⟨⟨0, 101, 8, 6⟩, false, true⟩, 7, 0, 101⟩ (ofBytesLE (keyReport st)) 16
      ↔ IsKeyOf st u := by
  have hlength : st.keysState.toList.length = 6 := Vector.length_toList
  have hcontrol : ∀ i, NamedField.control ⟨⟨⟨0, 101, 8, 6⟩, false, true⟩, 7, 0, 101⟩
      (Field.valueAt ⟨⟨0, 101, 8, 6⟩, false, true⟩ (ofBytesLE (keyReport st)) 16 i) i = some u.id ↔
        (st.keysState.toList.getD i 0).toNat ≤ 101 ∧ u.id = (st.keysState.toList.getD i 0).toNat := by
    intro i
    have hvalue : Field.valueAt ⟨⟨0, 101, 8, 6⟩, false, true⟩ (ofBytesLE (keyReport st)) 16 i
        = (st.keysState.toList.getD i 0).toNat := byte_keyReport st i
    rw [hvalue, NamedField.control, if_pos rfl]
    generalize (st.keysState.toList.getD i 0).toNat = value
    have hlimits : ((0 : Int) ≤ value ∧ (value : Int) ≤ 101) ↔ value ≤ 101 := by omega
    by_cases hmax : value ≤ 101
    · rw [if_pos (hlimits.mpr hmax), and_iff_right hmax]
      simp [eq_comm]
    · rw [if_neg fun h => hmax (hlimits.mp h)]
      exact iff_of_false (by simp) fun h => hmax h.1
  rw [NamedField.mem_usages rfl]
  constructor
  · rintro ⟨hpage, hne, -, i, hi, hkey⟩
    obtain ⟨hmax, hid⟩ := (hcontrol i).mp hkey
    have hi : i < st.keysState.toList.length := hlength.symm ▸ hi
    rw [List.getD_eq_getElem _ 0 hi] at hmax hid
    refine ⟨hpage, _, List.getElem_mem hi, ?_, hmax, hid⟩
    intro hzero
    rw [hzero] at hid
    exact hne hid
  · rintro ⟨hpage, key, hkey, hne, hmax, hid⟩
    obtain ⟨i, hi, rfl⟩ := List.getElem_of_mem hkey
    have hne : u.id ≠ 0 := by
      intro hzero
      exact hne (BitVec.eq_of_toNat_eq (hid.symm.trans hzero))
    refine ⟨hpage, hne, hid.trans_le hmax, i, hlength ▸ hi, (hcontrol i).mpr ?_⟩
    rw [List.getD_eq_getElem _ 0 hi]
    exact ⟨hmax, hid⟩

/-- **A report, read by its map**, says the modifiers of the control byte and the keys of the
slots. -/
theorem mem_usages_keyReport {st : KeyboardState} {u : Usage} :
    u ∈ inputUsages (keyReport st) ↔ IsModifierOf st.ctrlKeysState u ∨ IsKeyOf st u := by
  rw [inputUsages, usagesIn, namedFields_reportMap, Option.map_some, Option.getD_some,
    mem_usagesFrom_cons, mem_usagesFrom_cons, mem_usagesFrom_cons, mem_usages_modifiers,
    NamedField.usages_of_constant _ _ rfl]
  refine or_congr_right ?_
  rw [← mem_usages_keys]
  simp only [List.not_mem_nil, false_or, usagesFrom, or_false]
  exact Iff.rfl

/-- A modifier is on exactly if its bit is set. -/
theorem modifier_mem_usages (st : KeyboardState) {i : Nat} (hi : i < 8) :
    ⟨keyboardPage, 0xe0 + i⟩ ∈ inputUsages (keyReport st) ↔ st.ctrlKeysState.getLsbD i = true := by
  rw [mem_usages_keyReport]
  constructor
  · rintro (⟨-, j, -, hbit, hid⟩ | ⟨-, key, -, -, hmax, hid⟩)
    · have hij : i = j := Nat.add_left_cancel hid
      exact hij ▸ hbit
    · -- no key is that far up
      have hid : 0xe0 + i = key.toNat := hid
      omega
  · intro hbit
    exact .inl ⟨rfl, i, hi, hbit, rfl⟩

/-- A key is on exactly if a slot holds it. -/
theorem key_mem_usages (st : KeyboardState) {key : Byte} (hne : key ≠ 0) (hmax : key.toNat ≤ 101) :
    ⟨keyboardPage, key.toNat⟩ ∈ inputUsages (keyReport st) ↔ key ∈ st.keysState.toList := by
  rw [mem_usages_keyReport]
  constructor
  · rintro (⟨-, i, -, -, hid⟩ | ⟨-, key', hkey', -, -, hid⟩)
    · have hid : key.toNat = 0xe0 + i := hid
      omega
    · rwa [BitVec.eq_of_toNat_eq hid]
  · intro hkey
    exact .inr ⟨rfl, key, hkey, hne, hmax, rfl⟩

/-- **Nothing is lost but the order**: two keyboard states whose reports conform say the same
exactly if they have the same modifiers, and the same keys in whatever slots. -/
theorem usages_eq_iff {st st' : KeyboardState} (hst : Conforms reportMap (keyReport st))
    (hst' : Conforms reportMap (keyReport st')) :
    (∀ u, u ∈ inputUsages (keyReport st) ↔ u ∈ inputUsages (keyReport st')) ↔
      st.ctrlKeysState = st'.ctrlKeysState ∧
        ∀ key ≠ 0, key ∈ st.keysState.toList ↔ key ∈ st'.keysState.toList := by
  rw [conforms_keyReport_iff] at hst hst'
  constructor
  · intro h
    constructor
    · refine BitVec.eq_of_getLsbD_eq ?_
      intro i hi
      rw [Bool.eq_iff_iff, ← modifier_mem_usages st hi, ← modifier_mem_usages st' hi]
      exact h _
    · intro key hne
      by_cases hmax : key.toNat ≤ 101
      · rw [← key_mem_usages st hne hmax, ← key_mem_usages st' hne hmax]
        exact h _
      · exact iff_of_false (fun hkey => hmax (hst key hkey)) fun hkey => hmax (hst' key hkey)
  · rintro ⟨hctrl, hkeys⟩ u
    rw [mem_usages_keyReport, mem_usages_keyReport, hctrl]
    refine or_congr_right (and_congr_right fun _ => exists_congr fun key => ?_)
    constructor
    · rintro ⟨hkey, hne, hrest⟩
      exact ⟨(hkeys key hne).mp hkey, hne, hrest⟩
    · rintro ⟨hkey, hne, hrest⟩
      exact ⟨(hkeys key hne).mpr hkey, hne, hrest⟩

/-! ## Every report -/

/-- A report of a keyboard state says every bit of the control byte and every key of the slots, and
nothing else; the bits are of the left-hand modifiers only, and the keys of plain switches only. -/
structure ReadAsMeant (report : List Byte) (st : KeyboardState) : Prop where
  data : report = keyReport st
  masks : ∀ i < 8, st.ctrlKeysState.getLsbD i = true → i < 4
  keys : ∀ key ∈ st.keysState.toList, key ≠ 0 → IsUsage key
  usages : ∀ u, u ∈ inputUsages report ↔ u.page = keyboardPage ∧
    ((∃ i < 8, st.ctrlKeysState.getLsbD i = true ∧ u.id = 0xe0 + i) ∨
      ∃ key ∈ st.keysState.toList, key ≠ 0 ∧ u.id = key.toNat)

/-- A state whose masks and usages are apart has nothing beyond the limits of the report map. -/
theorem KeyboardState.Apart.readAsMeant {st : KeyboardState} (hst : st.Apart) :
    ReadAsMeant (keyReport st) st where
  data := rfl
  masks := by
    intro i hi hbit
    -- there are no other masks
    have hmasks : ∀ i < 8, modMasks.getLsbD i = true → i < 4 := by decide
    exact hmasks i hi (hst.masks i hi hbit)
  keys := fun key hkey hne => hst.slot hkey hne
  usages := by
    intro u
    rw [mem_usages_keyReport, IsModifierOf, IsKeyOf, ← and_or_left]
    refine and_congr_right fun _ => or_congr_right ?_
    refine exists_congr fun key => and_congr_right fun hkey => and_congr_right fun hne => ?_
    exact and_iff_right (hst.slot hkey hne).le

/-- **Reports are read as they are meant**: in every state of every run, every report that has been
sent is read as it is meant. -/
theorem reports_read {κ : Type u} (sendErr : Nat → Int) (es : List (Firmware.Event κ)) :
    (firmware κ sendErr).Always (fun fw => ∀ hid, fw.hid = .ok hid → ∀ r ∈ hid.sent,
      ∃ st : KeyboardState, ReadAsMeant r.data st) es := by
  refine (Firmware.sent_of_createReport KeyboardState.apart_zero
    (fun _ _ _ _ _ h => h.createReport) es).mono ?_
  intro fw h hid hok r hr
  obtain ⟨st, hst, hdata⟩ := h hid hok r hr
  exact ⟨st, hdata ▸ hst.readAsMeant⟩

/-! ## The switches behind a report -/

/-- The usages that a switch stands for in a layer. -/
def switchUsages (layer : Fin 4) (q : Pos) : List Usage :=
  if isLayerKey q then []
  else if isModChr q.1 q.2 then
    ((List.range 8).filter fun i => (keyCode layer q).getLsbD i).map fun i =>
      ⟨keyboardPage, 0xe0 + i⟩
  else if keyCode layer q = 0 then []
  else [⟨keyboardPage, (keyCode layer q).toNat⟩]

/-- The modifiers stand for Left Control, Left Shift, Left GUI and Left Alt. -/
example : modifierPositions.map (switchUsages 0)
    = [[⟨7, 0xe0⟩], [⟨7, 0xe1⟩], [⟨7, 0xe3⟩], [⟨7, 0xe2⟩]] := by
  decide

theorem getLsbD_modMask (f : Pos → Bool) (i : Nat) :
    (modMask f).getLsbD i = true ↔
      ∃ q ∈ modifierPositions, f q = true ∧ (keyCode 0 q).getLsbD i = true := by
  have hor : ∀ w mask : Byte, (w ||| mask).getLsbD i = (w.getLsbD i || mask.getLsbD i) :=
    fun _ _ => BitVec.getLsbD_or
  have hzero : BitVec.getLsbD (0 : Byte) i = false := BitVec.getLsbD_zero
  rw [modMask, getLsbD_foldl hor, hzero, Bool.false_or, List.any_eq_true]
  constructor
  · rintro ⟨mask, hmask, hbit⟩
    obtain ⟨q, hq, rfl⟩ := List.mem_map.mp hmask
    obtain ⟨hmem, hdown⟩ := List.mem_filter.mp hq
    exact ⟨q, hmem, hdown, hbit⟩
  · rintro ⟨q, hmem, hdown, hbit⟩
    exact ⟨_, List.mem_map.mpr ⟨q, List.mem_filter.mpr ⟨hmem, hdown⟩, rfl⟩, hbit⟩

/-- A usage of a switch on the base layer: of a modifier, or of a plain key with a code. -/
theorem mem_switchUsages_zero {q : Pos} (hq : q.2 < 24) {u : Usage} :
    u ∈ switchUsages 0 q ↔ u.page = keyboardPage ∧
      ((isModChr q.1 q.2 = true ∧ ∃ i < 8, (keyCode 0 q).getLsbD i = true ∧ u.id = 0xe0 + i) ∨
        (isModChr q.1 q.2 = false ∧ keyCode 0 q ≠ 0 ∧ u.id = (keyCode 0 q).toNat)) := by
  obtain ⟨page, id⟩ := u
  unfold switchUsages
  by_cases hlayer : isLayerKey q = true
  · -- a layer key is no modifier, and has no code here
    have hcode : ∀ lOrR, ∀ i < 24, isLayerKey (lOrR, i) = true →
        keyCode 0 (lOrR, i) = 0 ∧ isModChr lOrR i = false := by
      decide
    obtain ⟨hzero, hmod⟩ := hcode q.1 q.2 hq hlayer
    rw [if_pos hlayer, hzero, hmod]
    simp
  · rw [if_neg hlayer]
    by_cases hmod : isModChr q.1 q.2 = true
    · rw [if_pos hmod, hmod, List.mem_map]
      simp only [List.mem_filter, List.mem_range, true_and, Bool.true_eq_false, false_and, or_false]
      constructor
      · rintro ⟨i, ⟨hi, hbit⟩, heq⟩
        obtain ⟨rfl, rfl⟩ := Usage.mk.inj heq
        exact ⟨rfl, i, hi, hbit, rfl⟩
      · rintro ⟨rfl, i, hi, hbit, rfl⟩
        exact ⟨i, ⟨hi, hbit⟩, rfl⟩
    · rw [if_neg hmod, Bool.eq_false_of_not_eq_true hmod]
      by_cases hzero : keyCode 0 q = 0
      · rw [if_pos hzero]
        simp [hzero]
      · rw [if_neg hzero, List.mem_singleton, Usage.mk.injEq]
        refine and_congr_right fun _ => ⟨fun hid => .inr ⟨rfl, hzero, hid⟩, ?_⟩
        rintro (⟨hfalse, -⟩ | ⟨-, -, hid⟩)
        · cases hfalse
        · exact hid

/-- A keyboard state that shows on the base layer which switches are down. -/
structure ShowsKeys (f : Pos → Bool) (kbd : KeyboardState) : Prop where
  mem_slots : ∀ code : Byte, code ≠ 0 → (code ∈ kbd.keysState.toList ↔
    ∃ q : Pos, q.2 < 24 ∧ isModChr q.1 q.2 = false ∧ f q = true ∧ keyCode 0 q = code)
  ctrl : kbd.ctrlKeysState = modMask f

theorem ShowsBase.showsKeys {L R : Word} {kbd : KeyboardState} (h : ShowsBase L R kbd) :
    ShowsKeys (bitAt L R) kbd := ⟨h.mem_slots, h.ctrl⟩

/-- **What is down is what is said**: a keyboard state that shows the switches on the base layer
says the usages of those that are down, and no others. -/
theorem ShowsKeys.usages {f : Pos → Bool} {kbd : KeyboardState} (h : ShowsKeys f kbd) (u : Usage) :
    u ∈ inputUsages (keyReport kbd) ↔
      ∃ q : Pos, q.2 < 24 ∧ f q = true ∧ u ∈ switchUsages 0 q := by
  rw [mem_usages_keyReport]
  constructor
  · rintro (⟨hpage, i, hi, hbit, hid⟩ | ⟨hpage, key, hkey, hne, -, hid⟩)
    · rw [h.ctrl, getLsbD_modMask] at hbit
      obtain ⟨q, hq, hdown, hbit⟩ := hbit
      have hall : ∀ q ∈ modifierPositions, q.2 < 24 ∧ isModChr q.1 q.2 = true := by decide
      obtain ⟨hpos, hmod⟩ := hall q hq
      exact ⟨q, hpos, hdown, (mem_switchUsages_zero hpos).mpr
        ⟨hpage, .inl ⟨hmod, i, hi, hbit, hid⟩⟩⟩
    · obtain ⟨q, hpos, hmod, hdown, rfl⟩ := (h.mem_slots key hne).mp hkey
      exact ⟨q, hpos, hdown, (mem_switchUsages_zero hpos).mpr ⟨hpage, .inr ⟨hmod, hne, hid⟩⟩⟩
  · rintro ⟨q, hpos, hdown, hu⟩
    obtain ⟨hpage, ⟨hmod, i, hi, hbit, hid⟩ | ⟨hmod, hne, hid⟩⟩ :=
      (mem_switchUsages_zero hpos).mp hu
    · refine .inl ⟨hpage, i, hi, ?_, hid⟩
      rw [h.ctrl, getLsbD_modMask]
      exact ⟨q, (mem_modifierPositions hpos).mpr hmod, hdown, hbit⟩
    · exact .inr ⟨hpage, _, (h.mem_slots _ hne).mpr ⟨q, hpos, hmod, hdown, rfl⟩, hne,
        keyCode_lt 0 hpos, hid⟩

end BleKeyboard
