import BleKeyboard.Base.Held
import BleKeyboard.Firmware.Poll

/-!
# The edges a poll dispatches

Each call of `create_report` is an edge of one switch, tagged with the code its
position resolves to in the layer of that call. The history of these edges is
what the rest of the keyboard can know about the switches.

- `scan_alternates`, `scan_pressed`: one loop of `call_key_report` compares an old
  word of a half with a new one. If the history says what the old word says about
  that half, the loop's edges keep it alternating and leave it saying what the
  new word says.
- `Poll.calls_eq`: a whole call goes through the switches of both halves in order.
- `InStep`, `InStep.turn`: the agreement of the history with the words of the poll,
  which a turn of the main loop keeps.
-/

namespace BleKeyboard

open Base
open Base.Edge

/-- The edges dispatched so far, tagged with key codes. -/
abbrev History := List (Edge Pos Byte)

/-- The edge of a call of `create_report` in a layer. -/
def Call.edge (layer : Fin 4) (c : Call) : Edge Pos Byte := ⟨c.pos, c.down, keyCode layer c.pos⟩

/-- The edges of successive calls in one layer. -/
def edges (layer : Fin 4) (cs : List Call) : History := cs.map (Call.edge layer)

@[simp] theorem edges_nil (layer : Fin 4) : edges layer [] = [] := rfl

@[simp] theorem edges_cons (layer : Fin 4) (c : Call) (cs : List Call) :
    edges layer (c :: cs) = c.edge layer :: edges layer cs := rfl

theorem edges_append (layer : Fin 4) (cs ds : List Call) :
    edges layer (cs ++ ds) = edges layer cs ++ edges layer ds := List.map_append

theorem map_pos_edges (layer : Fin 4) (cs : List Call) :
    (edges layer cs).map Edge.pos = cs.map Call.pos := by
  unfold edges
  rw [List.map_map]
  rfl

theorem mem_edges {layer : Fin 4} {cs : List Call} {e : Edge Pos Byte} :
    e ∈ edges layer cs ↔ ∃ c ∈ cs, c.edge layer = e := List.mem_map

/-! ## One half, one loop -/

/-- The history `h` agrees with word `w` about the switches of a half. -/
def Shows (h : History) (lOrR : Bool) (w : Word) : Prop :=
  ∀ i < 24, pressed h (lOrR, i) = w.getLsbD i

instance (h : History) (lOrR : Bool) (w : Word) : Decidable (Shows h lOrR w) :=
  inferInstanceAs (Decidable (∀ i < 24, _))

theorem shows_nil (lOrR : Bool) : Shows [] lOrR 0 := by
  intro i _
  rw [pressed_nil]
  exact BitVec.getLsbD_zero.symm

/-- Only the low 24 bits of a word count. -/
theorem Shows.congr {h : History} {lOrR : Bool} {v w : Word} (hs : Shows h lOrR v)
    (hvw : v.setWidth 24 = w.setWidth 24) : Shows h lOrR w := by
  intro i hi
  rw [hs i hi]
  exact eq_of_low_bits hvw hi

section

variable {h : History} {layer : Fin 4} {lOrR : Bool} {old word : Word}

theorem edges_scan_nodup (changed : Word) :
    ((edges layer (scanChanges changed word lOrR)).map Edge.pos).Nodup := by
  rw [map_pos_edges]
  exact scanChanges_nodup _ _ _

/-- Every edge of a scan toggles its switch. -/
theorem scan_toggles (hold : Shows h lOrR old) {e : Edge Pos Byte}
    (he : e ∈ edges layer (scanChanges (word ^^^ old) word lOrR)) : e.down = !pressed h e.pos := by
  obtain ⟨c, hc, rfl⟩ := mem_edges.mp he
  obtain ⟨hhalf, hpos, hchanged, hdown⟩ := mem_scanChanges.mp hc
  have hpressed : pressed h (c.edge layer).pos = old.getLsbD c.position := by
    rw [← hold c.position hpos, ← hhalf]
    rfl
  rw [hpressed]
  show c.down = _
  rw [BitVec.getLsbD_xor] at hchanged
  rw [hdown]
  -- the two words differ at this switch
  cases hw : word.getLsbD c.position <;> cases ho : old.getLsbD c.position <;> simp_all

theorem scan_alternates (hold : Shows h lOrR old) (halt : Alternates h) :
    Alternates (h ++ edges layer (scanChanges (word ^^^ old) word lOrR)) :=
  (alternates_append (edges_scan_nodup _)).mpr ⟨halt, fun _ he => scan_toggles hold he⟩

/-- After a scan the history says what the new word says. -/
theorem scan_pressed (hold : Shows h lOrR old) :
    Shows (h ++ edges layer (scanChanges (word ^^^ old) word lOrR)) lOrR word := by
  intro i hi
  by_cases hmem : (lOrR, i) ∈ (edges layer (scanChanges (word ^^^ old) word lOrR)).map Edge.pos
  · obtain ⟨e, he, hpos⟩ := List.mem_map.mp hmem
    obtain ⟨c, hc, rfl⟩ := mem_edges.mp he
    obtain ⟨-, -, -, hdown⟩ := mem_scanChanges.mp hc
    rw [← hpos, pressed_append_of_mem (edges_scan_nodup _) he]
    have hci : c.position = i := (Prod.mk.inj hpos).2
    rw [← hci]
    exact hdown
  · -- no edge for this switch: the words agree about it
    rw [pressed_append_of_not_mem _ _ hmem, hold i hi]
    by_contra hne
    refine hmem ?_
    rw [map_pos_edges]
    refine List.mem_map.mpr ⟨⟨word.getLsbD i, lOrR, i⟩, mem_scanChanges.mpr ⟨rfl, hi, ?_, rfl⟩, rfl⟩
    rw [BitVec.getLsbD_xor]
    cases hw : word.getLsbD i <;> cases ho : old.getLsbD i <;> simp_all

end

/-! ## One call of `call_key_report` -/

/-- The edges that `call_key_report` dispatches. -/
def Poll.edges (keystates : Word) (p : Poll) : History :=
  BleKeyboard.edges (p.selectLayer keystates) (p.calls keystates)

theorem Poll.edges_nodup (keystates : Word) (p : Poll) :
    ((p.edges keystates).map Edge.pos).Nodup := by
  rw [Poll.edges, map_pos_edges]
  exact p.calls_nodup keystates

/-- The right word whose changes have been dispatched: the scan of the turn
before left `right_keystate_change` behind for the next call. -/
def Poll.dispatchedRight (p : Poll) : Word := p.lastKeystateRight ^^^ p.rightKeystateChange

theorem Poll.xor_dispatchedRight (p : Poll) :
    p.lastKeystateRight ^^^ p.dispatchedRight = p.rightKeystateChange := by
  unfold Poll.dispatchedRight
  rw [← BitVec.xor_assoc, BitVec.xor_self, BitVec.zero_xor]

/-- A scan leaves the words it compared behind. -/
@[simp] theorem Poll.scanned_dispatchedRight (pins : Pins) (p : Poll) :
    (p.scanned pins).dispatchedRight = p.lastKeystateRight := by
  show readMatrix pins ^^^ (readMatrix pins ^^^ p.lastKeystateRight) = _
  rw [← BitVec.xor_assoc, BitVec.xor_self, BitVec.zero_xor]

/-- The switches of both halves, given a word for each. -/
def bitAt (left right : Word) (q : Pos) : Bool :=
  if q.1 then left.getLsbD q.2 else right.getLsbD q.2

/-- The switches before a call of `call_key_report`, as far as dispatched. -/
def Poll.shown (p : Poll) : Pos → Bool := bitAt p.lastKeystateLeft p.dispatchedRight

/-- The switches that the call sees. -/
def Poll.seen (keystates : Word) (p : Poll) : Pos → Bool :=
  bitAt (p.reported keystates).lastKeystateLeft p.lastKeystateRight

/-- The `i`-th switch in the order in which a call goes through them. -/
def posAt (i : Nat) : Pos := if i < 24 then (true, i) else (false, i - 24)

/-- The place of a switch in that order. -/
def rank (q : Pos) : Nat := if q.1 then q.2 else 24 + q.2

theorem posAt_rank {q : Pos} (hq : q.2 < 24) : posAt (rank q) = q := by
  obtain ⟨_ | _, i⟩ := q
  · simp [posAt, rank]
  · exact if_pos hq

theorem rank_posAt (i : Nat) : rank (posAt i) = i := by
  unfold posAt
  split
  · rfl
  · show 24 + (i - 24) = i
    omega

theorem posAt_lt {i : Nat} (hi : i < 48) : (posAt i).2 < 24 := by
  unfold posAt
  split
  · assumption
  · show i - 24 < 24
    omega

/-- The call for the `i`-th switch, if it has changed. -/
def Poll.callAt (keystates : Word) (p : Poll) (i : Nat) : Option Call :=
  if p.shown (posAt i) ≠ p.seen keystates (posAt i) then
    some ⟨p.seen keystates (posAt i), (posAt i).1, (posAt i).2⟩
  else none

/-- One half of the calls, in terms of the old and the new word. -/
theorem scanChanges_eq_filterMap (old word : Word) (lOrR : Bool) :
    scanChanges (word ^^^ old) word lOrR = (List.range 24).filterMap fun i =>
      if old.getLsbD i ≠ word.getLsbD i then some ⟨word.getLsbD i, lOrR, i⟩ else none := by
  rw [scanChanges_eq]
  refine List.filterMap_congr ?_
  intro i _
  rw [BitVec.getLsbD_xor]
  cases word.getLsbD i <;> cases old.getLsbD i <;> rfl

/-- **Dispatch**: `call_key_report` goes through all switches in order, left half
first, and calls `create_report` once for each that has changed. -/
theorem Poll.calls_eq (keystates : Word) (p : Poll) :
    p.calls keystates = (List.range 48).filterMap (p.callAt keystates) := by
  have hleft : p.leftCalls keystates = (List.range 24).filterMap (p.callAt keystates) := by
    have hchanges : p.leftCalls keystates = scanChanges
        ((p.reported keystates).lastKeystateLeft ^^^ p.lastKeystateLeft)
        (p.reported keystates).lastKeystateLeft true := by
      unfold Poll.leftCalls Poll.reported
      by_cases hk : keystates ≠ noKeystates
      · rw [if_pos hk, if_pos hk]
      · -- the sentinel: a comparison of the old word with itself makes no calls either
        rw [if_neg hk, if_neg hk, BitVec.xor_self, scanChanges_eq]
        simp
    rw [hchanges, scanChanges_eq_filterMap]
    refine List.filterMap_congr ?_
    intro i hi
    unfold Poll.callAt
    rw [show posAt i = (true, i) from if_pos (List.mem_range.mp hi)]
    rfl
  have hright : p.rightCalls
      = ((List.range 24).map (24 + ·)).filterMap (p.callAt keystates) := by
    rw [Poll.rightCalls, ← p.xor_dispatchedRight, scanChanges_eq_filterMap, List.filterMap_map]
    refine List.filterMap_congr ?_
    intro i _
    have hpos : posAt (24 + i) = (false, i) := by
      rw [posAt, if_neg (by omega), Nat.add_sub_cancel_left]
    show _ = p.callAt keystates (24 + i)
    unfold Poll.callAt
    rw [hpos]
    rfl
  rw [Poll.calls, hleft, hright, ← List.filterMap_append, ← List.range_add]

theorem Poll.mem_calls {keystates : Word} {p : Poll} {c : Call} :
    c ∈ p.calls keystates ↔ c.position < 24 ∧ p.shown c.pos ≠ p.seen keystates c.pos ∧
      c.down = p.seen keystates c.pos := by
  rw [p.calls_eq, List.mem_filterMap]
  constructor
  · rintro ⟨i, hi, hc⟩
    unfold Poll.callAt at hc
    split at hc
    · next hne =>
      rw [← Option.some.inj hc]
      exact ⟨posAt_lt (List.mem_range.mp hi), hne, rfl⟩
    · cases hc
  · rintro ⟨hpos, hne, hdown⟩
    refine ⟨rank c.pos, List.mem_range.mpr ?_, ?_⟩
    · have hlt : c.pos.2 < 24 := hpos
      unfold rank
      split <;> omega
    · unfold Poll.callAt
      rw [posAt_rank hpos, if_pos hne, ← hdown]
      rfl

/-! ## The history and the words -/

/-- The history agrees with the words of the poll about both halves. -/
structure InStep (h : History) (p : Poll) : Prop where
  alternates : Alternates h
  left : Shows h true p.lastKeystateLeft
  right : Shows h false p.dispatchedRight

theorem inStep_zero : InStep [] Poll.zero :=
  ⟨alternates_nil, shows_nil true, shows_nil false⟩

theorem InStep.pressed {h : History} {p : Poll} (hin : InStep h p) {q : Pos} (hq : q.2 < 24) :
    Edge.pressed h q = p.shown q := by
  obtain ⟨_ | _, i⟩ := q
  · exact hin.right i hq
  · exact hin.left i hq

/-- The switches when the call has gone through the first `k` of them. -/
def stage (before after : Pos → Bool) (k : Nat) (q : Pos) : Bool :=
  if rank q < k then after q else before q

/-- In the middle of a call, the history shows the new state of the switches it
has passed and the old state of the others. -/
theorem InStep.pressed_stage {h : History} {p : Poll} (hin : InStep h p) (keystates : Word)
    (k : Nat) {q : Pos} (hq : q.2 < 24) :
    Edge.pressed (h ++ BleKeyboard.edges (p.selectLayer keystates)
      ((List.range k).filterMap (p.callAt keystates))) q
      = stage p.shown (p.seen keystates) k q := by
  induction k with
  | zero =>
    rw [List.range_zero, List.filterMap_nil, edges_nil, List.append_nil, hin.pressed hq, stage,
      if_neg (Nat.not_lt_zero _)]
  | succ k ih =>
    rw [List.range_succ, List.filterMap_append, edges_append, ← List.append_assoc]
    by_cases hk : rank q = k
    · -- the turn of `q`: an edge if it has changed, no edge if it has not
      have hat : posAt k = q := hk ▸ posAt_rank hq
      rw [stage, if_pos (by omega)]
      by_cases hne : p.shown q ≠ p.seen keystates q
      · have hcall : p.callAt keystates k = some ⟨p.seen keystates q, q.1, q.2⟩ := by
          rw [Poll.callAt, hat, if_pos hne]
        rw [List.filterMap_cons_some hcall, List.filterMap_nil, edges_cons, edges_nil,
          pressed_append_singleton]
        exact if_pos rfl
      · have hcall : p.callAt keystates k = none := by
          rw [Poll.callAt, hat, if_neg hne]
        rw [List.filterMap_cons_none hcall, List.filterMap_nil, edges_nil, List.append_nil, ih,
          stage, if_neg (by omega)]
        exact not_not.mp hne
    · -- the turn of another switch, which says nothing about `q`
      have hstage : stage p.shown (p.seen keystates) (k + 1) q
          = stage p.shown (p.seen keystates) k q := by
        unfold stage
        by_cases hlt : rank q < k
        · rw [if_pos hlt, if_pos (by omega)]
        · rw [if_neg hlt, if_neg (by omega)]
      rw [hstage, ← ih]
      refine pressed_append_of_not_mem _ _ ?_
      intro hmem
      rw [map_pos_edges] at hmem
      obtain ⟨c, hc, hpos⟩ := List.mem_map.mp hmem
      obtain ⟨i, hi, hcall⟩ := List.mem_filterMap.mp hc
      rw [List.mem_singleton.mp hi, Poll.callAt] at hcall
      split at hcall
      · rw [← Option.some.inj hcall] at hpos
        have hposAt : posAt k = q := hpos
        exact hk (hposAt ▸ rank_posAt k)
      · cases hcall

/-- After a call of `call_key_report` the history shows the words it saw. -/
theorem InStep.pressed_after_call {h : History} {p : Poll} (hin : InStep h p) (keystates : Word)
    {q : Pos} (hq : q.2 < 24) : Edge.pressed (h ++ p.edges keystates) q = p.seen keystates q := by
  have hall := hin.pressed_stage keystates 48 hq
  rw [← p.calls_eq keystates] at hall
  refine hall.trans (if_pos ?_)
  unfold rank
  split <;> omega

/-- Every edge of a call toggles its switch. -/
theorem InStep.toggles {h : History} {p : Poll} (hin : InStep h p) {keystates : Word}
    {e : Edge Pos Byte} (he : e ∈ p.edges keystates) : e.down = !Edge.pressed h e.pos := by
  obtain ⟨c, hc, rfl⟩ := mem_edges.mp he
  obtain ⟨hpos, hne, hdown⟩ := Poll.mem_calls.mp hc
  show c.down = !Edge.pressed h c.pos
  rw [hin.pressed (q := c.pos) hpos, hdown]
  exact Bool.eq_not.mpr hne.symm

theorem InStep.alternates_after_call {h : History} {p : Poll} (hin : InStep h p)
    (keystates : Word) : Alternates (h ++ p.edges keystates) :=
  (alternates_append (p.edges_nodup keystates)).mpr ⟨hin.alternates, fun _ he => hin.toggles he⟩

/-- A whole turn of the main loop: the call, then the scan of the right half. -/
theorem InStep.turn {h : History} {p : Poll} (hin : InStep h p) (keystates : Word)
    (pins : Pins) : InStep (h ++ p.edges keystates) ((p.reported keystates).scanned pins) := by
  refine ⟨hin.alternates_after_call keystates, ?_, ?_⟩
  · intro i hi
    exact hin.pressed_after_call keystates (q := (true, i)) hi
  · intro i hi
    rw [Poll.scanned_dispatchedRight]
    exact hin.pressed_after_call keystates (q := (false, i)) hi

end BleKeyboard
