import BleKeyboard.Base.Descriptor
import BleKeyboard.Firmware.Step
import BleKeyboard.Report.HeldKeys

/-!
# Masks, usages and the report map

A modifier mask and a key usage are both bytes of the key maps. Masks go into the control byte
and usages into the slots, and what tells them apart is the position of the switch, in all four
layers and on both halves.

- `masks_and_usages_apart`: whatever calls of `create_report` are made, in whatever layers, no
  mask gets into a slot and no usage into the control byte;
- `reports_conform`: so every report that the firmware sends is one that the report map
  declares.
-/

namespace BleKeyboard

open Base

universe u

/-! ## The report map -/

/-- The field of the slots: the one whose values name keys. -/
def slotField : Option Field :=
  (inputFields reportMap).bind fun fields => fields.find? fun f => f.array && !f.constant

/-- Eight bits, a byte of padding, and six key codes. -/
theorem inputFields_reportMap : inputFields reportMap = some
    [⟨⟨0, 1, 1, 8⟩, false, false⟩, ⟨⟨0, 1, 8, 1⟩, true, true⟩, ⟨⟨0, 101, 8, 6⟩, false, true⟩] := by
  decide

theorem slotField_eq : slotField = some ⟨⟨0, 101, 8, 6⟩, false, true⟩ := by
  rw [slotField, inputFields_reportMap]
  rfl

/-! ## Masks and usages -/

/-- `KEY_MOD_LCTRL`, `KEY_MOD_LSHIFT`, `KEY_MOD_LALT` and `KEY_MOD_LMETA`. -/
def modMasks : Byte := keyModLctrl ||| keyModLshift ||| keyModLalt ||| keyModLmeta

/-- A byte with no bits but those of the four masks. -/
def OnlyMasks (ctrl : Byte) : Prop :=
  ∀ i < 8, ctrl.getLsbD i = true → modMasks.getLsbD i = true

instance (ctrl : Byte) : Decidable (OnlyMasks ctrl) := inferInstanceAs (Decidable (∀ _ < 8, _))

/-- A code that a plain switch carries in some layer. -/
def IsUsage (key : Byte) : Prop := ∃ layer : Fin 4, ∃ p ∈ plainPositions, keyCode layer p = key

theorem IsUsage.le {key : Byte} (h : IsUsage key) : key.toNat ≤ 101 := by
  obtain ⟨layer, p, hp, rfl⟩ := h
  exact keyCode_lt layer (mem_plainPositions.mp hp).1

/-- `KEY_A` is a mask too, and `KEY_MOD_LALT` a usage: they are the same byte. -/
example : OnlyMasks keyA ∧ IsUsage keyModLalt :=
  ⟨by decide, 0, (true, 7), mem_plainPositions.mpr (by decide), by decide⟩

/-- What the modifiers carry are masks, in every layer. -/
theorem onlyMasks_keyCode (layer : Fin 4) {p : Pos} (hp : p.2 < 24)
    (hmod : isModChr p.1 p.2 = true) : OnlyMasks (keyCode layer p) := by
  obtain ⟨lOrR, i⟩ := p
  have hall : ∀ layer : Fin 4, ∀ lOrR, ∀ i : Fin 24, isModChr lOrR i = true →
      OnlyMasks (keyCode layer (lOrR, i.val)) := by
    decide +kernel
  exact hall layer lOrR ⟨i, hp⟩ hmod

theorem OnlyMasks.setOrClear {ctrl chr : Byte} (h : OnlyMasks ctrl) (hchr : OnlyMasks chr)
    (down : Bool) : OnlyMasks (setOrClearModByte ctrl down chr) := by
  intro i hi hbit
  rw [getLsbD_setOrClearModByte _ _ _ hi] at hbit
  by_cases hmask : chr.getLsbD i = true
  · exact hchr i hi hmask
  · rw [if_neg hmask] at hbit
    exact h i hi hbit

/-- The implicit shift is a mask too. -/
theorem OnlyMasks.implicitShift {st : KeyboardState} (h : OnlyMasks st.ctrlKeysState)
    (layer : Fin 4) (c : Call) : OnlyMasks (implicitShift layer c st).ctrlKeysState := by
  unfold BleKeyboard.implicitShift
  dsimp only
  split
  · exact h.setOrClear (by decide) c.down
  · exact h

theorem OnlyMasks.ctrlAfter {ctrl : Byte} (h : OnlyMasks ctrl) (layer : Fin 4) {c : Call}
    (hpos : c.position < 24) : OnlyMasks (ctrlAfter layer c ctrl) := by
  unfold BleKeyboard.ctrlAfter
  split
  · exact h
  · split
    · next hmod => exact h.setOrClear (onlyMasks_keyCode layer (p := c.pos) hpos hmod) c.down
    · exact OnlyMasks.implicitShift h layer c

/-- A key in the bag after a call was there before, or is the key of the call. -/
theorem mem_keysAfter {layer : Fin 4} {c : Call} {b : Multiset Byte} {key : Byte}
    (hkey : key ∈ keysAfter layer c b) :
    key ∈ b ∨ isPlain c.pos = true ∧ keyCode layer c.pos = key := by
  unfold keysAfter addKey removeKey at hkey
  split at hkey
  · next hplain =>
    split at hkey
    · split at hkey
      · exact .inl hkey
      · rcases Multiset.mem_cons.mp hkey with rfl | hkey
        · exact .inr ⟨hplain, rfl⟩
        · exact .inl hkey
    · split at hkey
      · exact .inl hkey
      · exact .inl (Multiset.mem_of_mem_erase hkey)
  · exact .inl hkey

/-- The control byte holds masks, and the slots usages. -/
structure KeyboardState.Apart (st : KeyboardState) : Prop where
  masks : OnlyMasks st.ctrlKeysState
  usages : ∀ key ∈ st.keys, IsUsage key

namespace KeyboardState

theorem apart_zero : Apart .zero := by
  refine ⟨by decide, ?_⟩
  have hnone : KeyboardState.zero.keys = 0 := by decide
  rw [hnone]
  exact fun _ hkey => absurd hkey (Multiset.notMem_zero _)

/-- **One call** keeps masks and usages apart. -/
theorem Apart.createReport {sendErr : Nat → Int} {modes : ConnModes} {layer : Fin 4} {c : Call}
    {hid hid' : Hid} (h : hid.kbd.Apart)
    (hok : createReport sendErr modes layer c hid = .ok hid') : hid'.kbd.Apart := by
  have hpos := position_lt_of_createReport hok
  obtain ⟨hctrl, hkeys⟩ := createReport_after hok
  constructor
  · rw [hctrl]
    exact h.masks.ctrlAfter layer hpos
  · intro key hkey
    rw [hkeys] at hkey
    rcases mem_keysAfter hkey with hkey | ⟨hplain, hcode⟩
    · exact h.usages key hkey
    · exact ⟨layer, c.pos, mem_plainPositions.mpr ⟨hpos, hplain⟩, hcode⟩

theorem Apart.slot {st : KeyboardState} (h : st.Apart) {key : Byte}
    (hkey : key ∈ st.keysState.toList) (hne : key ≠ 0) : IsUsage key :=
  h.usages key (mem_bag.mpr ⟨hkey, hne⟩)

end KeyboardState

/-! ## Calls in any order -/

/-- A call of `create_report`, with what it finds: the hosts, and the layer selected by then. -/
structure ReportCall where
  modes : ConnModes
  layer : Fin 4
  call : Call

/-- The calls, in any order and in any layers, as long as none leaves an array. -/
def reportCalls (sendErr : Nat → Int) : Machine Hid ReportCall where
  init := ⟨.zero, []⟩
  step hid e := (createReport sendErr e.modes e.layer e.call hid).toOption

/-- **Masks and usages never mix**: in every state of a run, the control byte holds nothing but
masks, and every slot that is not empty a code that a plain switch carries in some layer, and
none above the limit that the report map sets. -/
theorem masks_and_usages_apart (sendErr : Nat → Int) (es : List ReportCall) :
    slotField.map (fun f => f.logicalMax) = some 101 ∧
    (reportCalls sendErr).Always (fun hid => OnlyMasks hid.kbd.ctrlKeysState ∧
      ∀ key ∈ hid.kbd.keysState.toList, key ≠ 0 → IsUsage key ∧ key.toNat ≤ 101) es := by
  refine ⟨by rw [slotField_eq]; rfl, ?_⟩
  have hapart : (reportCalls sendErr).Always (fun hid => hid.kbd.Apart) es := by
    refine Machine.alwaysFrom_of_step es KeyboardState.apart_zero ?_
    intro hid e hid' h hstep
    exact h.createReport (exceptToOption_eq_some hstep)
  refine hapart.mono ?_
  intro hid h
  refine ⟨h.masks, fun key hkey hne => ?_⟩
  have husage := h.slot hkey hne
  exact ⟨husage, husage.le⟩

/-! ## The reports of the firmware -/

/-- The slots of a report. -/
theorem byte_keyReport (st : KeyboardState) (i : Nat) :
    ofBytesLE (keyReport st) >>> (16 + 8 * i) % 2 ^ 8 = (st.keysState.toList.getD i 0).toNat := by
  have hbit : 16 + 8 * i = 8 * (i + 2) := by omega
  rw [hbit]
  exact ofBytesLE_byte (keyReport st) (i + 2)

/-- **A report is one of the report map** exactly if no slot is above its limit. -/
theorem conforms_keyReport_iff {st : KeyboardState} :
    Conforms reportMap (keyReport st) ↔ ∀ key ∈ st.keysState.toList, key.toNat ≤ 101 := by
  have hlength : st.keysState.toList.length = 6 := Vector.length_toList
  have hfill : Conforms reportMap (keyReport st) ↔
      ∀ i < 6, (st.keysState.toList.getD i 0).toNat ≤ 101 := by
    constructor
    · rintro ⟨fields, hfields, hfill⟩ i hi
      obtain rfl := Option.some.inj (inputFields_reportMap.symm.trans hfields)
      obtain ⟨-, -, hslots, -⟩ := hfill
      rw [← byte_keyReport]
      exact Int.ofNat_le.mp (hslots rfl i hi).2
    · -- the bits are 0 or 1 in any case, and nothing is asked of the padding
      intro h
      refine ⟨_, inputFields_reportMap, Field.inRange_of_size (by decide) (by decide),
        Field.inRange_of_constant rfl, ?_, ?_⟩
      · intro _ i hi
        refine ⟨Int.natCast_nonneg _, Int.ofNat_le.mpr ?_⟩
        exact (byte_keyReport st i).trans_le (h i hi)
      · show 64 = 8 * (st.keysState.toList.length + 1 + 1)
        rw [hlength]
  rw [hfill]
  constructor
  · intro h key hkey
    obtain ⟨i, hi, rfl⟩ := List.getElem_of_mem hkey
    rw [← List.getD_eq_getElem _ 0 hi]
    exact h i (hlength ▸ hi)
  · intro h i hi
    rw [List.getD_eq_getElem _ 0 (hlength.symm ▸ hi)]
    exact h _ (List.getElem_mem _)

theorem KeyboardState.Apart.conforms {st : KeyboardState} (h : st.Apart) :
    Conforms reportMap (keyReport st) := by
  rw [conforms_keyReport_iff]
  intro key hkey
  by_cases hne : key = 0
  · rw [hne]
    exact Nat.zero_le _
  · exact (h.slot hkey hne).le

/-- What every call of `create_report` keeps holds in every state of every run. -/
theorem Firmware.always_of_createReport {κ : Type u} {sendErr : Nat → Int} {P : Hid → Prop}
    (hinit : P ⟨.zero, []⟩)
    (hstep : ∀ modes layer c hid hid', P hid →
      createReport sendErr modes layer c hid = .ok hid' → P hid')
    (es : List (Firmware.Event κ)) :
    (firmware κ sendErr).Always (fun fw => ∀ hid, fw.hid = .ok hid → P hid) es := by
  refine Machine.alwaysFrom_of_step es ?_ ?_
  · intro hid hok
    exact Except.ok.inj hok ▸ hinit
  · intro fw e fw' hP hfw hid hok
    rw [(Firmware.stepped hfw).hid] at hok
    cases e with
    | turn pins =>
      rw [Firmware.nextHid] at hok
      split at hok
      · obtain ⟨hid₀, hok₀, hcalls⟩ := exceptBind_eq_ok hok
        exact createReports_inv (hP hid₀ hok₀) (hstep _ _) hcalls
      · exact hP hid hok
    | _ => exact hP hid hok

/-- What every call keeps of the keyboard state holds of the state behind every report. -/
theorem Firmware.sent_of_createReport {κ : Type u} {sendErr : Nat → Int}
    {P : KeyboardState → Prop} (hinit : P .zero)
    (hstep : ∀ modes layer c hid hid', P hid.kbd →
      createReport sendErr modes layer c hid = .ok hid' → P hid'.kbd)
    (es : List (Firmware.Event κ)) :
    (firmware κ sendErr).Always (fun fw => ∀ hid, fw.hid = .ok hid →
      ∀ r ∈ hid.sent, ∃ st, P st ∧ r.data = keyReport st) es := by
  have hinv : (firmware κ sendErr).Always (fun fw => ∀ hid, fw.hid = .ok hid →
      P hid.kbd ∧ ∀ r ∈ hid.sent, ∃ st, P st ∧ r.data = keyReport st) es := by
    refine Firmware.always_of_createReport ⟨hinit, fun _ hr => absurd hr List.not_mem_nil⟩ ?_ es
    rintro modes layer c hid hid' ⟨hkbd, hsent⟩ hok
    have hkbd' := hstep modes layer c hid hid' hkbd hok
    refine ⟨hkbd', ?_⟩
    rcases createReport_cases hok with rfl | ⟨st, rfl⟩
    · exact hsent
    · -- the call sends the state it leaves
      obtain ⟨rs, hlog, hdata, -⟩ :=
        keyReportSendLoop_sent sendErr 0 modes.toList { hid with kbd := st }
      rw [keyReportSend_kbd] at hkbd'
      intro r hr
      rw [keyReportSend, hlog, List.mem_append] at hr
      rcases hr with hr | hr
      · exact hsent r hr
      · exact ⟨st, hkbd', hdata r hr⟩
  exact hinv.mono fun fw h hid hok => (h hid hok).2

/-- **Reports conform**: in every state of every run, every report that has been sent is one
that the report map declares. -/
theorem reports_conform {κ : Type u} (sendErr : Nat → Int) (es : List (Firmware.Event κ)) :
    (firmware κ sendErr).Always (fun fw => ∀ hid, fw.hid = .ok hid →
      ∀ r ∈ hid.sent, Conforms reportMap r.data) es := by
  refine (Firmware.sent_of_createReport KeyboardState.apart_zero
    (fun _ _ _ _ _ h => h.createReport) es).mono ?_
  intro fw h hid hok r hr
  obtain ⟨st, hst, hdata⟩ := h hid hok r hr
  exact hdata ▸ hst.conforms

end BleKeyboard
