import BleKeyboard.Host.View
import BleKeyboard.Report.Meaning

/-!
# Reports across layers

A key is looked up in the layer of the turn in which it goes down, and again in that of the turn
in which it goes up. As long as the two lookups agree, the reports say of a switch what it meant
when it was pressed, whatever layer keys go down or up in between. Both results are about runs in
which only turns that report change the words of the poll, and about the last report handed to the
stack for the host in the first entry.

`host_told_layers`: on such runs with at most six keys, its keys are those of the switches that are
down, each in the layer that it was pressed in.

`host_told_modifiers`: Control, Alt and Meta have one mask on all layers, and no key takes them
along, so of them it says what is down whatever the layers and the number of keys.
-/

namespace BleKeyboard

open Base
open Base.Edge

universe u

/-! ## The codes of held keys -/

theorem mem_heldCodes {h : History} {code : Byte} :
    code ∈ heldCodes h ↔ code ≠ 0 ∧
      ∃ q ∈ plainPositions, pressed h q = true ∧ (lastPress h q).getD 0 = code := by
  rw [heldCodes, Multiset.mem_filter, heldTags, Multiset.map_map, Multiset.mem_map, and_comm]
  refine and_congr_right fun _ => exists_congr fun q => ?_
  rw [Finset.mem_val, mem_held, and_assoc]
  rfl

/-- The usages of a plain switch in a layer: its code, if it has one. -/
theorem mem_switchUsages_plain {layer : Fin 4} {q : Pos} (hq : q ∈ plainPositions) {u : Usage} :
    u ∈ switchUsages layer q ↔
      u.page = keyboardPage ∧ keyCode layer q ≠ 0 ∧ u.id = (keyCode layer q).toNat := by
  obtain ⟨page, id⟩ := u
  obtain ⟨hlayer, hmod⟩ := isPlain_iff.mp (mem_plainPositions.mp hq).2
  rw [switchUsages, hlayer, hmod, if_neg Bool.false_ne_true, if_neg Bool.false_ne_true]
  by_cases hcode : keyCode layer q = 0
  · rw [if_pos hcode]
    exact iff_of_false List.not_mem_nil fun h => h.2.1 hcode
  · rw [if_neg hcode, List.mem_singleton, Usage.mk.injEq]
    exact and_congr_right fun _ => (and_iff_right hcode).symm

/-- The keys among the usages of a report are the slots. -/
theorem keyUsage_iff {st : KeyboardState} {u : Usage} :
    u ∈ inputUsages (keyReport st) ∧ u.id < 0xe0 ↔ IsKeyOf st u := by
  rw [mem_usages_keyReport]
  constructor
  · rintro ⟨hmodifier | hkey, hlt⟩
    · obtain ⟨-, i, -, -, hid⟩ := hmodifier
      omega
    · exact hkey
  · intro hkey
    refine ⟨.inr hkey, ?_⟩
    obtain ⟨-, key, -, -, hmax, hid⟩ := hkey
    omega

/-! ## The firmware and the board -/

/-- The board after an event. -/
def Board.afterEvent {κ : Type u} (b : Board) (fw : Firmware κ) : Firmware.Event κ → Board
  | .turn pins => if fw.reporting then b.turn ⟨fw.connMode, fw.kbds.keystates, pins⟩ else b
  | _ => b

namespace Firmware

variable {κ : Type u} {sendErr : Nat → Int} {fw fw' : Firmware κ} {e : Event κ} {b : Board}

/-- A turn that reports lets go of no key in another layer's code and finds at most six keys. -/
def OnLayers (b : Board) (fw : Firmware κ) : Event κ → Prop
  | .turn pins =>
    fw.reporting = true → b.LayersAgree ⟨fw.connMode, fw.kbds.keystates, pins⟩ ∧
      b.AtMostSix ⟨fw.connMode, fw.kbds.keystates, pins⟩
  | _ => True

instance (b : Board) (fw : Firmware κ) : DecidablePred (fw.OnLayers b)
  | .turn _ => inferInstanceAs (Decidable (_ → _))
  | .scanConnecting _ | .connected _ _ _ _ | .disconnected _ _ _ | .securityChanged _ _
  | .pmEvt _ _ | .discoveryCompleted _ _ _ | .notified _ | .readResponse _ _ | .readWork
  | .periodicResponse _ _ | .passkeyConfirm _ _ | .authCancel _ | .pairingFailed _
  | .pairingWork => .isTrue trivial

/-- The words of the poll are those of the board, and the slots hold the keys that are down. -/
def HoldsKeys (fw : Firmware κ) (b : Board) : Prop :=
  ∃ h, BoardSim b h fw.poll ∧ ReleasesMatch (fun q => isLayerKey q = false) h ∧ Holds h fw.hid

theorem holdsKeys_init : (init : Firmware κ).HoldsKeys .zero :=
  ⟨[], boardSim_zero, releasesMatch_nil _, holds_nil⟩

/-- **One event** on agreeing layers. -/
theorem HoldsKeys.step (hs : fw.HoldsKeys b) (hkeep : fw.KeepsWords e) (hon : fw.OnLayers b e)
    (hstep : fw.step sendErr e = some fw') : fw'.HoldsKeys (b.afterEvent fw e) := by
  have hstepped := stepped hstep
  by_cases hrep : fw.Reports e
  · cases e with
    | turn pins =>
      have hrep : fw.reporting = true := hrep
      obtain ⟨hagree, hsix⟩ := hon hrep
      obtain ⟨h, hsim, hmatch, hholds⟩ := hs
      rw [HoldsKeys, hstepped.poll, hstepped.hid, nextPoll, polled, nextHid, Board.afterEvent,
        if_pos hrep, if_pos hrep, if_pos hrep]
      exact ⟨_, hsim.turn _, (hsim.releasesMatch_iff _ hmatch).mpr hagree,
        hsim.holds_turn (s := ⟨fw.poll, fw.hid⟩) sendErr hmatch hholds hagree hsix⟩
    | _ => exact hrep.elim
  · have hboard : b.afterEvent fw e = b := by
      cases e with
      | turn pins => exact if_neg hrep
      | _ => rfl
    rw [HoldsKeys, hstepped.poll, hstepped.hid, hkeep.resolve_left hrep,
      nextHid_of_not_reports hrep, hboard]
    exact hs

/-- The keys that the keyboard state says are those of the switches that are down, each in the
layer that it was pressed in. -/
theorem HoldsKeys.keys (hs : fw.HoldsKeys b) : ∃ hid, fw.hid = .ok hid ∧
    ∀ u, u ∈ inputUsages (keyReport hid.kbd) ∧ u.id < 0xe0 ↔
      ∃ q ∈ plainPositions, b.before q = true ∧ u ∈ switchUsages (b.pressLayer q) q := by
  obtain ⟨h, hsim, -, hid, hok, hkeys⟩ := hs
  refine ⟨hid, hok, fun u => ?_⟩
  have hslot : ∀ key : Byte, key ∈ hid.kbd.keysState.toList ∧ key ≠ 0 ↔ key ∈ heldCodes h := by
    intro key
    rw [← hkeys]
    exact mem_bag.symm
  -- a switch that is down holds the code of the layer it was pressed in
  have hcode : ∀ q ∈ plainPositions, pressed h q = b.before q ∧
      (pressed h q = true → (lastPress h q).getD 0 = keyCode (b.pressLayer q) q) := by
    intro q hq
    have hpos := (mem_plainPositions.mp hq).1
    refine ⟨?_, fun hdown => ?_⟩
    · rw [hsim.inStep.pressed hpos, hsim.before_eq]
    · rw [hsim.pressLayer q hpos hdown]
      rfl
  rw [keyUsage_iff]
  constructor
  · rintro ⟨hpage, key, hkey, hne, -, hid⟩
    obtain ⟨-, q, hq, hdown, rfl⟩ := mem_heldCodes.mp ((hslot key).mp ⟨hkey, hne⟩)
    obtain ⟨hbefore, hcode⟩ := hcode q hq
    rw [hcode hdown] at hne hid
    exact ⟨q, hq, hbefore ▸ hdown, (mem_switchUsages_plain hq).mpr ⟨hpage, hne, hid⟩⟩
  · rintro ⟨q, hq, hdown, hu⟩
    obtain ⟨hpage, hne, hid⟩ := (mem_switchUsages_plain hq).mp hu
    obtain ⟨hbefore, hcode⟩ := hcode q hq
    have hpressed := hbefore.trans hdown
    have hmem := (hslot _).mpr (mem_heldCodes.mpr ⟨hne, q, hq, hpressed, hcode hpressed⟩)
    exact ⟨hpage, _, hmem.1, hne, keyCode_lt _ (mem_plainPositions.mp hq).1, hid⟩

end Firmware

/-! ## Runs -/

/-- The firmware, with the views of its hosts and the board on the side. -/
def layered (κ : Type u) (sendErr : Nat → Int) :
    Machine ((Firmware κ × View) × Board) (Firmware.Event κ) :=
  (viewing κ sendErr).recording .zero fun b s e => b.afterEvent s.1 e

/-- The keys of the last report handed to the stack for the host in the first entry since it
connected, if there is one, are those of the switches that are down, each in the layer that it was
pressed in. -/
def View.SaysKeys {κ : Type u} (v : View) (fw : Firmware κ) (b : Board) : Prop :=
  ∃ hid, fw.hid = .ok hid ∧ ∀ conn ∈ Firmware.firstHost fw.connMode,
    ∀ r ∈ (v.handed conn hid).getLast?, ∀ u, u ∈ inputUsages r.data ∧ u.id < 0xe0 ↔
      ∃ q ∈ plainPositions, b.before q = true ∧ u ∈ switchUsages (b.pressLayer q) q

/-- **Across layers**: in every state of every run in which only turns that report change the words
of the poll, and in these keys go up in the code that they went down in, at most six at a time,
whatever the layer keys do in between: the last report handed to the stack for the host in the first
entry says the keys of the switches that are down, each in the layer that it was pressed in. -/
theorem host_told_layers {κ : Type u} (sendErr : Nat → Int) (es : List (Firmware.Event κ))
    (hkeep : (layered κ sendErr).Along (fun s e _ => s.1.1.KeepsWords e) es)
    (hon : (layered κ sendErr).Along (fun s e _ => s.1.1.OnLayers s.2 e) es) :
    (layered κ sendErr).Always (fun s => s.1.2.SaysKeys s.1.1 s.2) es := by
  refine Machine.AlwaysFrom.mono (P := fun s => s.1.1.HoldsKeys s.2 ∧ s.1.2.InView s.1.1) ?_ ?_
  · refine Machine.AlwaysFrom.of_inv ⟨Firmware.holdsKeys_init, ?_⟩
      (Machine.AlongFrom.and hkeep hon) ?_
    · -- no host is connected yet
      intro hid _ conn hfirst
      cases hfirst
    · rintro s e t ⟨hholds, hview⟩ ⟨hkeep, hon⟩ ht
      obtain ⟨hviewing, hboard⟩ := Machine.recording_step.mp ht
      obtain ⟨hstep, hnext⟩ := Machine.recording_step.mp hviewing
      exact ⟨hboard ▸ hholds.step hkeep hon hstep, hnext ▸ hview.step (Firmware.stepped hstep)⟩
  · rintro s ⟨hholds, hview⟩
    obtain ⟨hid, hok, hkeys⟩ := hholds.keys
    refine ⟨hid, hok, fun conn hfirst r hr u => ?_⟩
    rw [(hview hid hok conn hfirst).last r hr, hkeys u]

/-- A is pressed; the left layer key goes down, and a key is pressed and let go in its layer; the
layer key goes up, and A after it. -/
theorem host_told_layers_nested :
    let es : List (Firmware.Event Nat) := [.connected 1 0 .peripheral 0, .securityChanged 1 0,
      .notified (some [0x80, 0, 0, 0]), .turn (pinsOf 0),
      .notified (some [0x80, 0, 0x40, 0]), .turn (pinsOf 0), .turn (pinsOf 1), .turn (pinsOf 1),
      .turn (pinsOf 0), .turn (pinsOf 0), .notified (some [0x80, 0, 0, 0]), .turn (pinsOf 0),
      .turn (pinsOf 0), .notified (some [0, 0, 0, 0]), .turn (pinsOf 0)]
    ((layered Nat fun _ => 0).run es).isSome = true ∧
      (layered Nat fun _ => 0).Always (fun s => s.1.2.SaysKeys s.1.1 s.2) es :=
  ⟨by decide +kernel, host_told_layers _ _ (by decide +kernel) (by decide +kernel)⟩

/-! ## The modifiers -/

/-- The modifiers that no key takes along, each with its bit. -/
def ownModifiers : List (Pos × Nat) := [((true, 6), 0), ((false, 20), 2), ((true, 21), 3)]

/-- Their masks on all layers: each bit is in the mask of its own switch only. -/
theorem keyCode_ownModifier {m : Pos × Nat} (hm : m ∈ ownModifiers) (layer : Fin 4) {q : Pos}
    (hq : q.2 < 24) (hmod : isModChr q.1 q.2 = true) :
    (keyCode layer q).getLsbD m.2 = decide (q = m.1) := by
  have hall : ∀ m ∈ ownModifiers, ∀ layer : Fin 4, ∀ lOrR, ∀ i : Fin 24,
      isModChr lOrR i = true →
        (keyCode layer (lOrR, i.val)).getLsbD m.2 = decide ((lOrR, i.val) = m.1) := by
    decide +kernel
  exact hall m hm layer q.1 ⟨q.2, hq⟩ hmod

/-- On every layer such a bit is moved by the edges of its switch and by no others. -/
theorem ctrlAfter_ownModifier {m : Pos × Nat} (hm : m ∈ ownModifiers) (layer : Fin 4) {c : Call}
    (hpos : c.position < 24) (ctrl : Byte) :
    (ctrlAfter layer c ctrl).getLsbD m.2 = if c.pos = m.1 then c.down else ctrl.getLsbD m.2 := by
  have hbit : ∀ m ∈ ownModifiers, m.2 < 8 ∧ isModChr m.1.1 m.1.2 = true ∧
      keyModLshift.getLsbD m.2 = false := by
    decide
  obtain ⟨hlt, hself, hshift⟩ := hbit m hm
  unfold ctrlAfter
  by_cases hmod : isModChr c.lOrR c.position = true
  · have hlayer : isLayerKey c.pos = false := isLayerKey_of_modifier hmod
    rw [hlayer, if_neg Bool.false_ne_true, if_pos hmod, getLsbD_setOrClearModByte _ _ _ hlt,
      keyCode_ownModifier hm layer (q := c.pos) hpos hmod]
    by_cases hc : c.pos = m.1
    · rw [if_pos hc, if_pos (decide_eq_true hc)]
    · rw [if_neg hc, if_neg (by rwa [decide_eq_true_iff])]
  · -- a layer key, or a plain key with its implicit shift
    have hne : c.pos ≠ m.1 := by
      intro hc
      rw [← hc] at hself
      exact hmod hself
    rw [if_neg hne, if_neg hmod]
    split
    · rfl
    · unfold implicitShift
      dsimp only
      split
      · rw [getLsbD_setOrClearModByte _ _ _ hlt, show keyMapLeft[0][2][0] = keyModLshift from rfl,
          hshift, if_neg Bool.false_ne_true]
      · rfl

/-- The bits of these modifiers are those of the switches that are down. -/
def ShowsModifiers (h : History) (hid : Hid) : Prop :=
  ∀ m ∈ ownModifiers, hid.kbd.ctrlKeysState.getLsbD m.2 = pressed h m.1

/-- A list of edges that goes through, in whatever layer. -/
theorem ShowsModifiers.createReports {sendErr : Nat → Int} {modes : ConnModes} {layer : Fin 4}
    {h : History} {cs : List Call} {hid hid' : Hid} (hs : ShowsModifiers h hid)
    (hok : createReports sendErr modes layer cs hid = .ok hid') :
    ShowsModifiers (h ++ edges layer cs) hid' := by
  -- induction on the calls, the history growing by the edge of each
  induction cs generalizing h hid with
  | nil =>
    obtain rfl := Except.ok.inj hok
    rwa [edges_nil, List.append_nil]
  | cons c cs ih =>
    rw [BleKeyboard.createReports, List.foldlM_cons] at hok
    obtain ⟨hid₁, hone, hrest⟩ := exceptBind_eq_ok hok
    have hhead : ShowsModifiers (h ++ [c.edge layer]) hid₁ := by
      intro m hm
      rw [(createReport_after hone).1,
        ctrlAfter_ownModifier hm layer (position_lt_of_createReport hone), hs m hm,
        pressed_append_singleton]
      rfl
    have htail := ih hhead hrest
    rwa [List.append_assoc, List.singleton_append, ← edges_cons] at htail

namespace Firmware

variable {κ : Type u} {sendErr : Nat → Int} {fw fw' : Firmware κ} {e : Event κ}

/-- An intact keyboard state has the modifiers of the words of the poll. -/
def HoldsModifiers (fw : Firmware κ) : Prop :=
  ∃ h, InStep h fw.poll ∧ ∀ hid, fw.hid = .ok hid → ShowsModifiers h hid

theorem holdsModifiers_init : (init : Firmware κ).HoldsModifiers := by
  refine ⟨[], inStep_zero, fun hid hok m hm => ?_⟩
  rw [← Except.ok.inj hok]
  exact BitVec.getLsbD_zero

/-- **One event**, in whatever layer. -/
theorem HoldsModifiers.step (hs : fw.HoldsModifiers) (hkeep : fw.KeepsWords e)
    (hstep : fw.step sendErr e = some fw') : fw'.HoldsModifiers := by
  have hstepped := stepped hstep
  by_cases hrep : fw.Reports e
  · cases e with
    | turn pins =>
      obtain ⟨h, hin, hmods⟩ := hs
      have hrep : fw.reporting = true := hrep
      rw [HoldsModifiers, hstepped.poll, hstepped.hid, nextPoll, polled, nextHid, if_pos hrep,
        if_pos hrep]
      refine ⟨_, hin.turn fw.kbds.keystates pins, fun hid hok => ?_⟩
      obtain ⟨hid₀, hok₀, hcalls⟩ := exceptBind_eq_ok hok
      exact (hmods hid₀ hok₀).createReports hcalls
    | _ => exact hrep.elim
  · rw [HoldsModifiers, hstepped.poll, hstepped.hid, hkeep.resolve_left hrep,
      nextHid_of_not_reports hrep]
    exact hs

/-- The modifiers that the keyboard state says. -/
theorem HoldsModifiers.modifiers (hs : fw.HoldsModifiers) {hid : Hid} (hok : fw.hid = .ok hid)
    {m : Pos × Nat} (hm : m ∈ ownModifiers) :
    ⟨keyboardPage, 0xe0 + m.2⟩ ∈ inputUsages (keyReport hid.kbd) ↔
      fw.poll.shown m.1 = true := by
  obtain ⟨h, hin, hmods⟩ := hs
  have hbound : ∀ m ∈ ownModifiers, m.1.2 < 24 ∧ m.2 < 8 := by decide
  rw [modifier_mem_usages _ (hbound m hm).2, hmods hid hok m hm, hin.pressed (hbound m hm).1]

end Firmware

/-- Of Control, Alt and Meta, the last report handed to the stack for the host in the first entry
since it connected, if there is one, says those that are down. -/
def View.SaysModifiers {κ : Type u} (v : View) (fw : Firmware κ) : Prop :=
  ∀ hid, fw.hid = .ok hid → ∀ conn ∈ Firmware.firstHost fw.connMode,
    ∀ r ∈ (v.handed conn hid).getLast?, ∀ m ∈ ownModifiers,
      ⟨keyboardPage, 0xe0 + m.2⟩ ∈ inputUsages r.data ↔ fw.poll.shown m.1 = true

/-- **The modifiers, whatever the layers**: in every state of every run in which only turns that
report change the words of the poll, and as long as no call has gone wrong, the last report handed
to the stack for the host in the first entry says of Control, Alt and Meta what is down, however
many keys are down and whatever layers they were pressed and let go in. -/
theorem host_told_modifiers {κ : Type u} (sendErr : Nat → Int) (es : List (Firmware.Event κ))
    (hkeep : (viewing κ sendErr).Along (fun s e _ => s.1.KeepsWords e) es) :
    (viewing κ sendErr).Always (fun s => s.2.SaysModifiers s.1) es := by
  refine Machine.AlwaysFrom.mono (P := fun s => s.1.HoldsModifiers ∧ s.2.InView s.1) ?_ ?_
  · refine Machine.AlwaysFrom.of_inv ⟨Firmware.holdsModifiers_init, ?_⟩ hkeep ?_
    · -- no host is connected yet
      intro hid _ conn hfirst
      cases hfirst
    · rintro s e t ⟨hholds, hview⟩ hkeep ht
      obtain ⟨hstep, hnext⟩ := Machine.recording_step.mp ht
      exact ⟨hholds.step hkeep hstep, hnext ▸ hview.step (Firmware.stepped hstep)⟩
  · rintro s ⟨hholds, hview⟩ hid hok conn hfirst r hr m hm
    rw [(hview hid hok conn hfirst).last r hr, hholds.modifiers hok hm]

/-- A goes down with Left Control; the left layer key goes down, and Left Alt in its layer; then
Left Control goes up there. -/
theorem host_told_modifiers_across :
    let es : List (Firmware.Event Nat) := [.connected 1 0 .peripheral 0, .securityChanged 1 0,
      .notified (some [0xc0, 0, 0, 0]), .turn (pinsOf 0),
      .notified (some [0xc0, 0, 0x40, 0]), .turn (pinsOf 0x100000), .turn (pinsOf 0x100000),
      .notified (some [0x80, 0, 0x40, 0]), .turn (pinsOf 0x100000)]
    ((viewing Nat fun _ => 0).run es).map (fun s => s.1.hid.toOption.map fun hid =>
        (s.2.handed 1 hid).getLast?.map SentReport.data)
      = some (some (some [4, 0, 4, 0, 0, 0, 0, 0])) ∧
      (viewing Nat fun _ => 0).Always (fun s => s.2.SaysModifiers s.1) es :=
  ⟨by decide +kernel, host_told_modifiers _ _ (by decide +kernel)⟩

end BleKeyboard
