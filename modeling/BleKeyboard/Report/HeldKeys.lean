import BleKeyboard.Report.SlotTable
import BleKeyboard.Report.Edges
import Mathlib.Data.Finset.Prod
import Mathlib.Data.Fintype.Basic
import Mathlib.Data.Finset.Card

/-!
# The slot table holds the keys that are down

For a history of dispatched edges, `heldCodes` is the bag of the codes that the
held plain switches were pressed with. This is what a keyboard report is for:
the six slots are the code's way of storing that bag.

`createReport` refines one edge of the history and `createReports` a list of
them, as long as

- edges toggle their switches (`Alternates`),
- releases carry the code of their press (`ReleasesMatch`), and
- at most six plain switches are down at a time (`Room`).

The modifier byte is not a bag: `ctrlAfter` says what each edge does to it. `createReport_after`
is about any edge at all, in the history or not: what a call that goes through does.
-/

namespace BleKeyboard

open Base
open Base.Edge

/-- The switches whose codes go through the slot table. -/
def plainPositions : Finset Pos :=
  (Finset.univ ×ˢ Finset.range 24).filter fun p => isPlain p = true

theorem mem_plainPositions {p : Pos} : p ∈ plainPositions ↔ p.2 < 24 ∧ isPlain p = true := by
  unfold plainPositions
  rw [Finset.mem_filter, Finset.mem_product, Finset.mem_range]
  exact and_congr_left' (and_iff_right (Finset.mem_univ _))

/-- The bag of key codes that held switches were pressed with; a switch pressed
with `KEY_NONE` holds no key. -/
def heldCodes (h : History) : Multiset Byte :=
  ((heldTags plainPositions h).map fun code => code.getD 0).filter (· ≠ 0)

@[simp] theorem heldCodes_nil : heldCodes [] = 0 := by
  simp [heldCodes, heldTags]

theorem card_heldCodes_le (h : History) : (heldCodes h).card ≤ (held plainPositions h).card := by
  unfold heldCodes
  refine (Multiset.card_le_card (Multiset.filter_le _ _)).trans_eq ?_
  rw [Multiset.card_map, heldTags, Multiset.card_map]
  rfl

/-- With no plain switch down, no key is held. -/
theorem heldCodes_eq_zero {h : History} (hup : ∀ p ∈ plainPositions, pressed h p = false) :
    heldCodes h = 0 := by
  refine Multiset.card_eq_zero.mp (Nat.le_zero.mp ((card_heldCodes_le h).trans_eq ?_))
  refine Finset.card_eq_zero.mpr (Finset.filter_eq_empty_iff.mpr fun p hp => ?_)
  rw [hup p hp]
  exact Bool.false_ne_true

section

variable {h : History} {e : Edge Pos Byte}

theorem heldCodes_press (hS : e.pos ∈ plainPositions) (hup : pressed h e.pos = false)
    (hdown : e.down = true) : heldCodes (h ++ [e]) = addKey e.code (heldCodes h) := by
  unfold heldCodes addKey
  rw [heldTags_press hS hup hdown, Multiset.map_cons, Option.getD_some]
  by_cases hcode : e.code = 0
  · rw [if_pos hcode, Multiset.filter_cons_of_neg (p := (· ≠ 0)) _ (not_not.mpr hcode)]
  · rw [if_neg hcode, Multiset.filter_cons_of_pos (p := (· ≠ 0)) _ hcode]

theorem heldCodes_release (hS : e.pos ∈ plainPositions) (hheld : pressed h e.pos = true)
    (hdown : e.down = false) (hcode : lastPress h e.pos = some e.code) :
    heldCodes h = addKey e.code (heldCodes (h ++ [e])) := by
  unfold heldCodes addKey
  rw [heldTags_release hS hheld hdown hcode, Multiset.map_cons, Option.getD_some]
  by_cases hcode : e.code = 0
  · rw [if_pos hcode, Multiset.filter_cons_of_neg (p := (· ≠ 0)) _ (not_not.mpr hcode)]
  · rw [if_neg hcode, Multiset.filter_cons_of_pos (p := (· ≠ 0)) _ hcode]

theorem heldCodes_of_not_mem (hS : e.pos ∉ plainPositions) :
    heldCodes (h ++ [e]) = heldCodes h := by
  unfold heldCodes
  rw [heldTags_of_not_mem hS]

/-- Releasing a key undoes pressing it. -/
theorem removeKey_addKey (key : Byte) (b : Multiset Byte) : removeKey key (addKey key b) = b := by
  unfold removeKey addKey
  split
  · rfl
  · exact Multiset.erase_cons_head _ _

end

/-- At most six plain switches are down after the history `h`, and after each
further edge of `es`. -/
def Room (h es : History) : Prop :=
  ∀ pre, pre <+: es → (held plainPositions (h ++ pre)).card ≤ keyPressMax

theorem Room.head {h es : History} (hr : Room h es) :
    (held plainPositions h).card ≤ keyPressMax := by
  have hnil := hr [] List.nil_prefix
  rwa [List.append_nil] at hnil

theorem Room.tail {h es : History} {e : Edge Pos Byte} (hr : Room h (e :: es)) :
    Room (h ++ [e]) es := by
  intro pre hpre
  rw [List.append_assoc]
  exact hr (e :: pre) (List.cons_prefix_cons.mpr ⟨rfl, hpre⟩)

/-- What an edge does to the modifier byte: nothing for a layer key, its mask for a
modifier, the implicit shift for a plain key. -/
def ctrlAfter (layer : Fin 4) (c : Call) (ctrl : Byte) : Byte :=
  if isLayerKey c.pos then ctrl
  else if isModChr c.lOrR c.position then setOrClearModByte ctrl c.down (keyCode layer c.pos)
  else (implicitShift layer c { KeyboardState.zero with ctrlKeysState := ctrl }).ctrlKeysState

theorem implicitShift_ctrl (layer : Fin 4) (c : Call) (st : KeyboardState) :
    (implicitShift layer c st).ctrlKeysState
      = (implicitShift layer c
          { KeyboardState.zero with ctrlKeysState := st.ctrlKeysState }).ctrlKeysState := by
  unfold implicitShift
  simp only
  split <;> rfl

theorem ctrlAfter_plain {layer : Fin 4} {c : Call} (hplain : isPlain c.pos = true)
    (st : KeyboardState) :
    ctrlAfter layer c st.ctrlKeysState = (implicitShift layer c st).ctrlKeysState := by
  obtain ⟨hlayer, hmod⟩ := isPlain_iff.mp hplain
  have hmod : isModChr c.lOrR c.position = false := hmod
  rw [ctrlAfter, hlayer, hmod, if_neg Bool.false_ne_true, if_neg Bool.false_ne_true,
    ← implicitShift_ctrl]

/-- What an edge does to the bag of keys: only a plain key is in it. -/
def keysAfter (layer : Fin 4) (c : Call) (b : Multiset Byte) : Multiset Byte :=
  if isPlain c.pos then
    if c.down then addKey (keyCode layer c.pos) b else removeKey (keyCode layer c.pos) b
  else b

/-- A call of `create_report` that goes through moves the modifier byte by `ctrlAfter`, and the
bag by `keysAfter`. -/
theorem createReport_after {sendErr : Nat → Int} {modes : ConnModes} {layer : Fin 4} {c : Call}
    {hid hid' : Hid} (hok : createReport sendErr modes layer c hid = .ok hid') :
    hid'.kbd.ctrlKeysState = ctrlAfter layer c hid.kbd.ctrlKeysState ∧
      hid'.kbd.keys = keysAfter layer c hid.kbd.keys := by
  have hpos := position_lt_of_createReport hok
  by_cases hplain : isPlain c.pos = true
  · rw [createReport_plain sendErr modes layer hid hplain hpos] at hok
    obtain ⟨r, hslot, rfl⟩ := exceptMap_eq_ok hok
    have hctrl : buttonCtrlCode (keyCode layer c.pos) = 0 :=
      buttonCtrlCode_eq_zero (Nat.lt_of_le_of_lt (keyCode_lt layer hpos) (by decide))
    rw [keyReportSend_kbd, ctrlAfter_plain hplain, keysAfter, if_pos hplain,
      ← implicitShift_keys layer hid.kbd]
    exact slotCall_spec hctrl hslot
  · rw [keysAfter, if_neg hplain]
    by_cases hlayer : isLayerKey c.pos = true
    · rw [createReport_layerKey sendErr modes layer hid hlayer] at hok
      rw [← Except.ok.inj hok, ctrlAfter, if_pos hlayer]
      exact ⟨rfl, rfl⟩
    · have hmod : isModChr c.lOrR c.position = true := isModChr_of_not_plain hplain hlayer
      obtain ⟨hid₁, hok₁, hslots, hctrl⟩ :=
        createReport_modifier sendErr modes layer hid hmod hpos
      rw [← Except.ok.inj (hok₁.symm.trans hok), hctrl, ctrlAfter, if_neg hlayer, if_pos hmod]
      exact ⟨rfl, congrArg (bag 0) hslots⟩

/-- A call that went through: the new state shows the keys `b`, and the modifier
byte that the edge leaves. -/
def Yields (layer : Fin 4) (cs : List Call) (hid : Hid) (r : Except Fault Hid)
    (b : Multiset Byte) : Prop :=
  ∃ hid', r = .ok hid' ∧ hid'.kbd.keys = b ∧
    hid'.kbd.ctrlKeysState = cs.foldl (fun ctrl c => ctrlAfter layer c ctrl) hid.kbd.ctrlKeysState

theorem yields_of_ok {sendErr : Nat → Int} {modes : ConnModes} {layer : Fin 4} {c : Call}
    {hid hid' : Hid} {b : Multiset Byte}
    (hok : createReport sendErr modes layer c hid = .ok hid')
    (hkeys : keysAfter layer c hid.kbd.keys = b) :
    Yields layer [c] hid (createReport sendErr modes layer c hid) b := by
  obtain ⟨hctrl, hafter⟩ := createReport_after hok
  exact ⟨hid', hok, hafter.trans hkeys, hctrl⟩

section

variable (sendErr : Nat → Int) (modes : ConnModes) (layer : Fin 4) {h : History} {c : Call}
  {hid : Hid}

/-- A plain key goes down: the switch was up, so with it at most six are down and
a slot is free. -/
theorem createReport_press (hpos : c.position < 24) (hplain : isPlain c.pos = true)
    (hdown : c.down = true) (hkeys : hid.kbd.keys = heldCodes h)
    (hup : pressed h c.pos = false) (hroom : Room h [c.edge layer]) :
    Yields layer [c] hid (createReport sendErr modes layer c hid)
      (heldCodes (h ++ [c.edge layer])) := by
  have hS : c.pos ∈ plainPositions := mem_plainPositions.mpr ⟨hpos, hplain⟩
  have hctrl : buttonCtrlCode (keyCode layer c.pos) = 0 :=
    buttonCtrlCode_eq_zero (Nat.lt_of_le_of_lt (keyCode_lt layer hpos) (by decide))
  have hinsert : held plainPositions (h ++ [c.edge layer])
      = insert c.pos (held plainPositions h) := held_press (e := c.edge layer) hS hdown
  -- the room after the edge counts this switch
  have hcard : (held plainPositions h).card + 1 ≤ keyPressMax := by
    have hnot : c.pos ∉ held plainPositions h := fun hmem => by
      simp [(mem_held.mp hmem).2] at hup
    have hafter := hroom [c.edge layer] List.prefix_rfl
    rwa [hinsert, Finset.card_insert_of_notMem hnot] at hafter
  have hfree : (implicitShift layer c hid.kbd).keys.card < keyPressMax := by
    rw [implicitShift_keys, hkeys]
    exact Nat.lt_of_le_of_lt (card_heldCodes_le h) hcard
  obtain ⟨st', hset, -⟩ := keySet_keys hctrl hfree
  have hok : createReport sendErr modes layer c hid
      = .ok (keyReportSend sendErr modes { hid with kbd := st' }).2 := by
    rw [createReport_plain sendErr modes layer hid hplain hpos, slotCall, if_pos hdown, hset]
    rfl
  refine yields_of_ok hok ?_
  rw [keysAfter, if_pos hplain, if_pos hdown, hkeys]
  exact (heldCodes_press (e := c.edge layer) hS hup hdown).symm

/-- A plain key goes up: it was down with this very code, so the code is in the
bag; if the code is `KEY_NONE`, the switch itself leaves a slot free. -/
theorem createReport_release (hpos : c.position < 24) (hplain : isPlain c.pos = true)
    (hdown : c.down = false) (hkeys : hid.kbd.keys = heldCodes h)
    (hheld : pressed h c.pos = true) (hcode : lastPress h c.pos = some (keyCode layer c.pos))
    (hroom : Room h [c.edge layer]) :
    Yields layer [c] hid (createReport sendErr modes layer c hid)
      (heldCodes (h ++ [c.edge layer])) := by
  have hS : c.pos ∈ plainPositions := mem_plainPositions.mpr ⟨hpos, hplain⟩
  have hctrl : buttonCtrlCode (keyCode layer c.pos) = 0 :=
    buttonCtrlCode_eq_zero (Nat.lt_of_le_of_lt (keyCode_lt layer hpos) (by decide))
  have hbag : heldCodes h = addKey (keyCode layer c.pos) (heldCodes (h ++ [c.edge layer])) :=
    heldCodes_release (e := c.edge layer) hS hheld hdown hcode
  have hin : if keyCode layer c.pos = 0 then
        (implicitShift layer c hid.kbd).keys.card < keyPressMax
      else keyCode layer c.pos ∈ (implicitShift layer c hid.kbd).keys := by
    rw [implicitShift_keys, hkeys]
    split
    · next hzero =>
      -- `KEY_NONE` is searched for like a key, and an empty slot is what it finds
      have hmem : c.pos ∈ held plainPositions h := mem_held.mpr ⟨hS, hheld⟩
      have hlt : (held plainPositions (h ++ [c.edge layer])).card
          < (held plainPositions h).card := by
        rw [held_release (e := c.edge layer) hdown]
        exact Finset.card_erase_lt_of_mem hmem
      have hsame : heldCodes h = heldCodes (h ++ [c.edge layer]) := hbag.trans (if_pos hzero)
      rw [hsame]
      exact Nat.lt_of_le_of_lt (card_heldCodes_le _) (Nat.lt_of_lt_of_le hlt hroom.head)
    · next hne =>
      have hcons : heldCodes h = keyCode layer c.pos ::ₘ heldCodes (h ++ [c.edge layer]) :=
        hbag.trans (if_neg hne)
      rw [hcons]
      exact Multiset.mem_cons_self _ _
  obtain ⟨st', hclear, -⟩ := keyClear_keys hctrl hin
  have hup : ¬c.down = true := by
    rw [hdown]
    exact Bool.false_ne_true
  have hok : createReport sendErr modes layer c hid
      = .ok (keyReportSend sendErr modes { hid with kbd := st' }).2 := by
    rw [createReport_plain sendErr modes layer hid hplain hpos, slotCall, if_neg hup, hclear]
    rfl
  refine yields_of_ok hok ?_
  rw [keysAfter, if_pos hplain, if_neg hup, hkeys, hbag]
  exact removeKey_addKey _ _

/-- Modifiers and layer keys leave the slots alone. -/
theorem createReport_other (hpos : c.position < 24) (hplain : ¬isPlain c.pos = true)
    (hkeys : hid.kbd.keys = heldCodes h) :
    Yields layer [c] hid (createReport sendErr modes layer c hid)
      (heldCodes (h ++ [c.edge layer])) := by
  have hS : (c.edge layer).pos ∉ plainPositions := fun hmem =>
    hplain (mem_plainPositions.mp hmem).2
  have hsame : keysAfter layer c hid.kbd.keys = heldCodes (h ++ [c.edge layer]) := by
    rw [heldCodes_of_not_mem hS, keysAfter, if_neg hplain, hkeys]
  by_cases hlayer : isLayerKey c.pos = true
  · exact yields_of_ok (createReport_layerKey sendErr modes layer hid hlayer) hsame
  · have hmod : isModChr c.lOrR c.position = true := isModChr_of_not_plain hplain hlayer
    obtain ⟨hid', hok, -⟩ := createReport_modifier sendErr modes layer hid hmod hpos
    exact yields_of_ok hok hsame

/-- **One edge**: `create_report` carries a table that holds the held keys to one
that holds the held keys. -/
theorem createReport_refines (hpos : c.position < 24) (hkeys : hid.kbd.keys = heldCodes h)
    (halt : Alternates (h ++ [c.edge layer]))
    (hmatch : ReleasesMatch (· ∈ plainPositions) (h ++ [c.edge layer]))
    (hroom : Room h [c.edge layer]) :
    Yields layer [c] hid (createReport sendErr modes layer c hid)
      (heldCodes (h ++ [c.edge layer])) := by
  have htoggle : c.down = !pressed h c.pos := ((alternates_append_singleton _ _).mp halt).2
  by_cases hplain : isPlain c.pos = true
  · cases hdown : c.down with
    | true =>
      have hup : pressed h c.pos = false := by simpa [hdown] using htoggle
      exact createReport_press sendErr modes layer hpos hplain hdown hkeys hup hroom
    | false =>
      have hheld : pressed h c.pos = true := by simpa [hdown] using htoggle
      have hcode : lastPress h c.pos = some (keyCode layer c.pos) :=
        ((releasesMatch_append_singleton _ _ _).mp hmatch).2
          (mem_plainPositions.mpr ⟨hpos, hplain⟩) hdown
      exact createReport_release sendErr modes layer hpos hplain hdown hkeys hheld hcode hroom
  · exact createReport_other sendErr modes layer hpos hplain hkeys

/-- **A list of edges**: no call leaves the table, and the table ends up holding
the keys that the extended history holds. -/
theorem createReports_refines {cs : List Call} (hpos : ∀ c ∈ cs, c.position < 24)
    (hkeys : hid.kbd.keys = heldCodes h) (halt : Alternates (h ++ edges layer cs))
    (hmatch : ReleasesMatch (· ∈ plainPositions) (h ++ edges layer cs))
    (hroom : Room h (edges layer cs)) :
    Yields layer cs hid (createReports sendErr modes layer cs hid)
      (heldCodes (h ++ edges layer cs)) := by
  -- induction on the calls, the history growing by the edge of each
  induction cs generalizing h hid with
  | nil =>
    refine ⟨hid, rfl, ?_, rfl⟩
    rw [edges_nil, List.append_nil]
    exact hkeys
  | cons c cs ih =>
    have hsplit : h ++ edges layer (c :: cs) = (h ++ [c.edge layer]) ++ edges layer cs := by
      rw [edges_cons, List.append_assoc, List.singleton_append]
    rw [hsplit] at halt hmatch ⊢
    have hfirst : Room h [c.edge layer] := fun pre hpre =>
      hroom pre (hpre.trans (List.cons_prefix_cons.mpr ⟨rfl, List.nil_prefix⟩))
    obtain ⟨hid₁, hok₁, hkeys₁, hctrl₁⟩ := createReport_refines sendErr modes layer
      (hpos c List.mem_cons_self) hkeys halt.of_append hmatch.of_append hfirst
    obtain ⟨hid₂, hok₂, hkeys₂, hctrl₂⟩ := ih (fun d hd => hpos d (List.mem_cons_of_mem _ hd))
      hkeys₁ halt hmatch hroom.tail
    refine ⟨hid₂, ?_, hkeys₂, ?_⟩
    · rw [createReports, List.foldlM_cons, hok₁]
      exact hok₂
    · rw [hctrl₂, hctrl₁]
      rfl

end

end BleKeyboard
