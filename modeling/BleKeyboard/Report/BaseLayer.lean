import BleKeyboard.Report.Layers

/-!
# The base layer, end to end

While no layer key is touched, the keyboard does what its key maps say: the slot
table is the set of base-layer codes of the switches that are down, and the
modifier byte the set of their modifier masks (`base_layer_refinement`).

Behind it stand two facts about the tables: no two plain switches share a
base-layer code (`keyCode_zero_injective`), and the four modifier masks are
disjoint, so that clearing one leaves the others alone (`modMask_update`).
-/

namespace BleKeyboard

open Base
open Base.Edge

/-! ## The modifier byte -/

/-- The modifier switches. -/
def modifierPositions : List Pos := ((List.range 48).map posAt).filter fun q => isModChr q.1 q.2

/-- The base-layer masks of the modifier switches that are down, or-ed together. -/
def modMask (f : Pos → Bool) : Byte :=
  ((modifierPositions.filter f).map (keyCode 0)).foldl (· ||| ·) 0

theorem modifierPositions_eq :
    modifierPositions = [(true, 6), (true, 12), (true, 21), (false, 20)] := by decide

theorem mem_modifierPositions {q : Pos} (hq : q.2 < 24) :
    q ∈ modifierPositions ↔ isModChr q.1 q.2 = true := by
  unfold modifierPositions
  rw [List.mem_filter, List.mem_map]
  refine and_iff_right ⟨rank q, List.mem_range.mpr ?_, posAt_rank hq⟩
  unfold rank
  split <;> omega

theorem modMask_congr {f g : Pos → Bool} (h : ∀ q ∈ modifierPositions, f q = g q) :
    modMask f = modMask g := by
  unfold modMask
  rw [List.filter_congr h]

theorem modMask_eq (f : Pos → Bool) :
    modMask f = (if f (true, 6) then keyModLctrl else 0) ||| (if f (true, 12) then keyModLshift else 0)
      ||| (if f (true, 21) then keyModLmeta else 0) ||| (if f (false, 20) then keyModLalt else 0) := by
  unfold modMask
  rw [modifierPositions_eq]
  cases h₁ : f (true, 6) <;> cases h₂ : f (true, 12) <;> cases h₃ : f (true, 21) <;>
    cases h₄ : f (false, 20) <;> simp only [List.filter, h₁, h₂, h₃, h₄] <;> decide

/-- Setting or clearing one modifier leaves the others as they are. -/
theorem modMask_update (f : Pos → Bool) {q : Pos} (hq : q ∈ modifierPositions) (down : Bool) :
    setOrClearModByte (modMask f) down (keyCode 0 q) = modMask (Function.update f q down) := by
  rw [modifierPositions_eq] at hq
  rw [modMask_eq, modMask_eq]
  simp only [List.mem_cons, List.not_mem_nil, or_false] at hq
  -- which modifier it is, and which of the four are down: a finite check
  rcases hq with rfl | rfl | rfl | rfl <;> simp only [Function.update_apply] <;>
    cases f (true, 6) <;> cases f (true, 12) <;> cases f (true, 21) <;> cases f (false, 20) <;>
    cases down <;> decide

/-- On the base layer an edge of a modifier moves its mask, and no other edge
touches the byte. -/
theorem ctrlAfter_zero (f : Pos → Bool) {c : Call} (hpos : c.position < 24) :
    ctrlAfter 0 c (modMask f) = modMask (Function.update f c.pos c.down) := by
  by_cases hmod : isModChr c.lOrR c.position = true
  · have hlayer : isLayerKey c.pos = false := isLayerKey_of_modifier hmod
    rw [ctrlAfter, hlayer, if_neg Bool.false_ne_true, if_pos hmod]
    exact modMask_update f ((mem_modifierPositions (q := c.pos) hpos).mpr hmod) c.down
  · -- no implicit shift on layer 0, so the byte stays
    have hother : modMask (Function.update f c.pos c.down) = modMask f := by
      refine modMask_congr fun q hq => Function.update_of_ne ?_ _ _
      rintro rfl
      exact hmod ((mem_modifierPositions (q := c.pos) hpos).mp hq)
    rw [hother]
    unfold ctrlAfter
    split
    · rfl
    · rw [implicitShift_of_layer_ne 0 _ (by decide)]

theorem ctrlAfter_zero_run {h : History} {cs : List Call} (hpos : ∀ c ∈ cs, c.position < 24) :
    cs.foldl (fun ctrl c => ctrlAfter 0 c ctrl) (modMask (pressed h))
      = modMask (pressed (h ++ edges 0 cs)) := by
  induction cs generalizing h with
  | nil => rw [edges_nil, List.append_nil, List.foldl_nil]
  | cons c cs ih =>
    have hhead : ctrlAfter 0 c (modMask (pressed h)) = modMask (pressed (h ++ [c.edge 0])) := by
      rw [ctrlAfter_zero _ (hpos c List.mem_cons_self), pressed_append_update]
      rfl
    rw [List.foldl_cons, hhead, ih fun d hd => hpos d (List.mem_cons_of_mem _ hd), edges_cons,
      List.append_assoc, List.singleton_append]

/-! ## The slot table -/

/-- No two plain switches share a base-layer code. -/
theorem keyCode_zero_injective : ∀ p ∈ plainPositions, ∀ q ∈ plainPositions,
    keyCode 0 p = keyCode 0 q → keyCode 0 p ≠ 0 → p = q := by decide +kernel

/-- A keyboard state that shows left word `L` and right word `R` on the base
layer. -/
structure ShowsBase (L R : Word) (kbd : KeyboardState) : Prop where
  nodup : (kbd.keysState.toList.filter (· ≠ 0)).Nodup
  mem_slots : ∀ code : Byte, code ≠ 0 → (code ∈ kbd.keysState.toList ↔
    ∃ q : Pos, q.2 < 24 ∧ isModChr q.1 q.2 = false ∧ bitAt L R q = true ∧ keyCode 0 q = code)
  ctrl : kbd.ctrlKeysState = modMask (bitAt L R)

/-- With every key pressed on the base layer, the held codes are the base-layer
codes of the held switches. -/
theorem heldCodes_base {h : History}
    (hbase : ∀ q ∈ plainPositions, pressed h q = true → lastPress h q = some (keyCode 0 q)) :
    heldCodes h = ((held plainPositions h).val.map (keyCode 0)).filter (· ≠ 0) := by
  unfold heldCodes heldTags
  rw [Multiset.map_map]
  refine congrArg _ (Multiset.map_congr rfl fun q hq => ?_)
  obtain ⟨hS, hdown⟩ := mem_held.mp (Finset.mem_val.mp hq)
  rw [Function.comp_apply, hbase q hS hdown, Option.getD_some]

theorem nodup_heldCodes_base (h : History) :
    (((held plainPositions h).val.map (keyCode 0)).filter (· ≠ 0)).Nodup := by
  rw [Multiset.filter_map]
  refine Multiset.Nodup.map_on (fun p hp q hq heq => ?_)
    ((held plainPositions h).nodup.filter _)
  obtain ⟨hp, hne⟩ := Multiset.mem_filter.mp hp
  obtain ⟨hq, -⟩ := Multiset.mem_filter.mp hq
  exact keyCode_zero_injective p (mem_held.mp hp).1 q (mem_held.mp hq).1 heq hne

/-- Slots that hold the held codes, all pressed on the base layer, show which plain switches are
down. -/
theorem mem_slots_base {h : History} {st : KeyboardState} (hkeys : st.keys = heldCodes h)
    (hbase : ∀ q ∈ plainPositions, pressed h q = true → lastPress h q = some (keyCode 0 q))
    {code : Byte} (hcode : code ≠ 0) : code ∈ st.keysState.toList ↔
      ∃ q : Pos, q.2 < 24 ∧ isModChr q.1 q.2 = false ∧ pressed h q = true ∧ keyCode 0 q = code := by
  have hbag : bag 0 st.keysState = ((held plainPositions h).val.map (keyCode 0)).filter (· ≠ 0) :=
    hkeys.trans (heldCodes_base hbase)
  rw [← and_iff_left (a := code ∈ st.keysState.toList) hcode, ← mem_bag, hbag,
    Multiset.mem_filter, and_iff_left hcode, Multiset.mem_map]
  constructor
  · rintro ⟨q, hq, rfl⟩
    obtain ⟨hS, hdown⟩ := mem_held.mp (Finset.mem_val.mp hq)
    obtain ⟨hpos, hplain⟩ := mem_plainPositions.mp hS
    exact ⟨q, hpos, (isPlain_iff.mp hplain).2, hdown, rfl⟩
  · rintro ⟨q, hpos, hmod, hdown, rfl⟩
    -- a layer key has no code on the base layer
    have hlayer : isLayerKey q = false := by
      by_contra hlayer
      have hnone : ∀ lOrR, ∀ i < 24, isLayerKey (lOrR, i) = true → keyCode 0 (lOrR, i) = 0 := by
        decide
      exact hcode (hnone q.1 q.2 hpos (Bool.not_eq_false _ ▸ hlayer))
    have hS : q ∈ plainPositions := mem_plainPositions.mpr ⟨hpos, isPlain_iff.mpr ⟨hlayer, hmod⟩⟩
    exact ⟨q, Finset.mem_val.mpr (mem_held.mpr ⟨hS, hdown⟩), rfl⟩

/-! ## Runs -/

/-- No layer key is down, and nothing has been pressed on another layer. -/
structure Board.AtBase (b : Board) : Prop where
  left : b.left.getLsbD 22 = false
  next : b.next.getLsbD 19 = false
  pressLayer : ∀ q, b.pressLayer q = 0

/-- A frame that touches no layer key. -/
def Frame.NoLayerKey (f : Frame) : Prop :=
  f.keystates.getLsbD 22 = false ∧ (readMatrix f.pins).getLsbD 19 = false

instance (f : Frame) : Decidable f.NoLayerKey := inferInstanceAs (Decidable (_ ∧ _))

/-- At most six non-modifier switches are down before this turn or in it. -/
def Board.AtMostSixHeld (b : Board) (f : Frame) : Prop :=
  ((Finset.univ ×ˢ Finset.range 24 : Finset Pos).filter fun q =>
    isModChr q.1 q.2 = false ∧ (b.before q || b.after f q) = true).card ≤ keyPressMax

instance (b : Board) (f : Frame) : Decidable (b.AtMostSixHeld f) :=
  inferInstanceAs (Decidable (_ ≤ _))

namespace Board.AtBase

variable {b : Board} (hb : b.AtBase) {f : Frame} (hf : f.NoLayerKey)
include hb hf

theorem layer_eq : b.layer f = 0 := by
  unfold Board.layer
  rw [hb.left, hb.next, hf.1]
  exact ite_self _

theorem turn : (b.turn f).AtBase where
  left := by
    show (b.leftSeen f).getLsbD 22 = false
    unfold Board.leftSeen
    split
    · exact hf.1
    · exact hb.left
  next := hf.2
  pressLayer q := by
    show (if !b.before q && b.after f q then b.layer f else b.pressLayer q) = 0
    rw [hb.layer_eq hf, hb.pressLayer q, ite_self]

theorem layersAgree : b.LayersAgree f := by
  intro lOrR i _ _ _ _
  rw [hb.layer_eq hf, hb.pressLayer]

end Board.AtBase

theorem Board.AtMostSixHeld.atMostSix {b : Board} {f : Frame} (h : b.AtMostSixHeld f) :
    b.AtMostSix f := by
  intro k _
  refine (Finset.card_le_card fun q hq => ?_).trans h
  obtain ⟨hS, hstage⟩ := Finset.mem_filter.mp hq
  obtain ⟨hpos, hplain⟩ := mem_plainPositions.mp hS
  refine Finset.mem_filter.mpr ⟨?_, ?_, ?_⟩
  · exact Finset.mem_product.mpr ⟨Finset.mem_univ _, Finset.mem_range.mpr hpos⟩
  · exact (isPlain_iff.mp hplain).2
  · unfold stage at hstage
    split at hstage <;> simp [hstage]

/-- The invariant of a run on the base layer. -/
structure BaseInv (s : KeyState × History × Board) : Prop where
  sim : BoardSim s.2.2 s.2.1 s.1.poll
  releasesMatch : ReleasesMatch (fun q => isLayerKey q = false) s.2.1
  atBase : s.2.2.AtBase
  keys : ∃ hid, s.1.hid = .ok hid ∧ hid.kbd.keys = heldCodes s.2.1 ∧
    hid.kbd.ctrlKeysState = modMask (pressed s.2.1)

theorem atBase_zero : Board.zero.AtBase :=
  ⟨BitVec.getLsbD_zero, BitVec.getLsbD_zero, fun _ => rfl⟩

theorem baseInv_init (sendErr : Nat → Int) : BaseInv (boardLoop sendErr).init where
  sim := boardSim_zero
  releasesMatch := releasesMatch_nil _
  atBase := atBase_zero
  keys := by
    obtain ⟨hid, hok, hkeys⟩ := holds_nil
    refine ⟨hid, hok, hkeys, ?_⟩
    rw [← Except.ok.inj hok]
    show (0 : Byte) = modMask (pressed [])
    decide

/-- A turn on the base layer keeps the invariant. -/
theorem BaseInv.turn (sendErr : Nat → Int) {s : KeyState × History × Board} (hs : BaseInv s)
    {f : Frame} (hf : f.NoLayerKey) (hsix : s.2.2.AtMostSixHeld f) :
    BaseInv (keyTurn sendErr s.1 f, s.2.1 ++ s.1.poll.edges f.keystates, s.2.2.turn f) := by
  have hmatch := (hs.sim.releasesMatch_iff f hs.releasesMatch).mpr (hs.atBase.layersAgree hf)
  refine ⟨hs.sim.turn f, hmatch, hs.atBase.turn hf, ?_⟩
  obtain ⟨hid, hok, hkeys, hctrl⟩ := hs.keys
  have hlayer : s.1.poll.selectLayer f.keystates = 0 :=
    (hs.sim.layer_eq f).symm.trans (hs.atBase.layer_eq hf)
  have hroom : Room s.2.1 (s.1.poll.edges f.keystates) := hs.sim.inStep.room fun k hk => by
    rw [← hs.sim.before_eq, ← hs.sim.after_eq f]
    exact hsix.atMostSix k hk
  obtain ⟨hid', hok', hkeys', hctrl'⟩ := callKeyReport_yields sendErr f.modes hkeys
    (hs.sim.inStep.alternates_after_call f.keystates)
    (fun pre e post hsplit hS hdown => hmatch pre e post hsplit
      (isLayerKey_of_mem_plainPositions hS) hdown) hroom
  refine ⟨hid', ?_, hkeys', ?_⟩
  · show (callKeyReport sendErr f.modes f.keystates s.1.poll s.1.hid).2 = .ok hid'
    rw [hok]
    exact hok'
  · rw [hctrl', hctrl, hlayer, ctrlAfter_zero_run fun c hc => s.1.poll.position_lt_of_mem_calls hc]
    show _ = modMask (pressed (s.2.1 ++ s.1.poll.edges f.keystates))
    rw [Poll.edges, hlayer]

/-- The invariant, read off the keyboard state. -/
theorem BaseInv.showsBase {s : KeyState × History × Board} (hs : BaseInv s) :
    ∃ hid, s.1.hid = .ok hid ∧ ShowsBase s.2.2.left s.2.2.right hid.kbd := by
  obtain ⟨hid, hok, hkeys, hctrl⟩ := hs.keys
  have hpressed : ∀ q : Pos, q.2 < 24 → pressed s.2.1 q = bitAt s.2.2.left s.2.2.right q :=
    fun q hq => (hs.sim.inStep.pressed hq).trans (congrFun hs.sim.before_eq q).symm
  have hbase : ∀ q ∈ plainPositions, pressed s.2.1 q = true →
      lastPress s.2.1 q = some (keyCode 0 q) := by
    intro q hq hdown
    rw [hs.sim.pressLayer q (mem_plainPositions.mp hq).1 hdown, hs.atBase.pressLayer]
  refine ⟨hid, hok, ?_, ?_, ?_⟩
  · have hbag : bag 0 hid.kbd.keysState = _ := hkeys.trans (heldCodes_base hbase)
    have hnodup : (bag 0 hid.kbd.keysState).Nodup := hbag ▸ nodup_heldCodes_base s.2.1
    rwa [bag, Multiset.filter_coe, Multiset.coe_nodup] at hnodup
  · intro code hcode
    refine (mem_slots_base hkeys hbase hcode).trans (exists_congr fun q => ?_)
    exact and_congr_right fun hpos => by rw [hpressed q hpos]
  · rw [hctrl]
    refine modMask_congr fun q hq => hpressed q ?_
    have hall : ∀ q ∈ modifierPositions, q.2 < 24 := by decide
    exact hall q hq

/-- **Base-layer refinement**: on every run that touches no layer key and has at
most six non-modifier switches down in each turn, after every call of
`call_key_report` the keyboard state shows the left word of the last poll that
was not the sentinel and the right word the call saw. -/
theorem base_layer_refinement (sendErr : Nat → Int) (frames : List Frame)
    (hframes : ∀ f ∈ frames, f.NoLayerKey)
    (hsix : (boardLoop sendErr).Along (fun s f _ => s.2.2.AtMostSixHeld f) frames) :
    (boardLoop sendErr).Along (fun s _ t => ∃ hid, t.1.hid = .ok hid ∧
      ShowsBase t.2.2.left s.1.poll.lastKeystateRight hid.kbd) frames := by
  refine Machine.AlongFrom.of_inv (baseInv_init sendErr)
    ((Machine.alongFrom_of_forall _ hframes).and hsix) ?_
  rintro s f t hs ⟨hf, hheld⟩ ht
  obtain rfl := boardLoop_step ht
  have hturn := hs.turn sendErr hf hheld
  refine ⟨hturn, ?_⟩
  rw [← hs.sim.next]
  exact hturn.showsBase

/-- A and Left Shift together, then A alone, a poll of the sentinel, and all
released. -/
theorem base_layer_refinement_shift_a :
    let frames := [Frame.ofLeft 0x1080, .ofLeft 0x80, .ofLeft 0xff, .ofLeft 0]
    (boardLoop fun _ => 0).Along (fun s _ t => ∃ hid, t.1.hid = .ok hid ∧
      ShowsBase t.2.2.left s.1.poll.lastKeystateRight hid.kbd) frames :=
  base_layer_refinement _ _ (by decide) (by decide +kernel)

end BleKeyboard
