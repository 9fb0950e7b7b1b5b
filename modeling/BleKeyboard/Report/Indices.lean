import BleKeyboard.Firmware.InCall

/-!
# Shift counts and indices of the report path

`is_ith_bit_set` does not shift by 32 or more. The loops of `call_key_report` have no such
guard: they count from 0 and shift by one less than their count, an unsigned number, so their
first turn shifts by `2 ^ 32 - 1`, which C does not define.

- `first_turn_unsafe`: there is no call without such a shift, whatever the words are;
- `unsafe_only_in_first_turns`: all other shifts have counts below 32, and the positions
  passed to `create_report` stay inside the key maps, even if the client's word changes
  during the call.
-/

namespace BleKeyboard

open Base

namespace InCall

/-! ## The shifts of a step -/

/-- The count of the shift in `is_ith_bit_set`. -/
def isIthBitSetShifts (bit : Nat) : List Nat := if bit ≥ 32 then [] else [bit]

/-- `i - 1`, as the count of a shift. -/
def turnShift (i : Nat) : Nat := (BitVec.ofNat 32 i - 1#32).toNat

/-- The shifts of `a || b`: those of `b` only if `a` is false. -/
def orShifts (a : Bool) (xs ys : List Nat) : List Nat := xs ++ if a then [] else ys

/-- The shifts of `a && b`: those of `b` only if `a` is true. -/
def andShifts (a : Bool) (xs ys : List Nat) : List Nat := xs ++ if a then ys else []

/-- The counts of the shifts that the next step evaluates, in order. -/
def shifts (s : InCall) : List Nat :=
  let p := s.poll
  match s.pc with
  | .layer =>
    orShifts (isIthBitSet p.keystateRight 19) (isIthBitSetShifts 19) (isIthBitSetShifts 19)
  | .layerBoth =>
    orShifts (isIthBitSet s.kbds.keystates 22 && isIthBitSet p.keystateRight 19)
      (andShifts (isIthBitSet s.kbds.keystates 22) (isIthBitSetShifts 22) (isIthBitSetShifts 19))
      (andShifts (isIthBitSet p.lastKeystateLeft 22) (isIthBitSetShifts 22) (isIthBitSetShifts 19))
  | .layerOne =>
    orShifts (isIthBitSet s.kbds.keystates 22) (isIthBitSetShifts 22) (isIthBitSetShifts 22)
  | .leftTurn i => if i < 25 then [turnShift i] else []
  | .leftTest i => [turnShift i]
  | .rightTurn i =>
    if i < 25 then
      -- the mask, and for a changed switch the word
      andShifts (p.rightKeystateChange &&& shl1 (BitVec.ofNat 32 i - 1#32) ≠ 0#32)
        [turnShift i] [turnShift i]
    else []
  | _ => []

/-- What the calls of `create_report` so far look up lies inside the key maps. -/
structure InBounds (s : InCall) : Prop where
  positions : ∀ c ∈ s.calls, c.position ≤ 23
  accesses : ∀ c ∈ s.calls, ∀ lOrR, (keyAt (keyMap lOrR) s.poll.layerSelection (c.position / 6)
    (c.position % 6)).isSome = true

/-- The step from `s` to `t` is defined in C. -/
structure SafeStep (s t : InCall) : Prop where
  shifts : ∀ k ∈ s.shifts, k < 32
  inBounds : t.InBounds

/-- A call is in the first turn of a loop. -/
def FirstTurn : Pc → Prop
  | .leftTurn i | .rightTurn i => i = 0
  | _ => False

/-! ## Every call has an unsafe shift -/

/-- Where a call that has met no unsafe shift can be. -/
def BeforeRight (s : InCall) : Prop :=
  match s.pc with
  | .illegal => s.valid = true
  | .rightTurn i => i = 0
  | .printIllegal | .done => False
  | _ => True

variable {sendErr : Nat → Int} {modes : ConnModes} {s t : InCall}

theorem beforeRight_ite {kbds : KbdsClient} {poll : Poll} {hasChanged : Word}
    {hid : Except Fault Hid} {calls : List Call} {c : Prop} [Decidable c] {pc pc' : Pc}
    (hpos : c → (⟨kbds, poll, hasChanged, hid, calls, pc⟩ : InCall).BeforeRight)
    (hneg : (⟨kbds, poll, hasChanged, hid, calls, pc'⟩ : InCall).BeforeRight) :
    (⟨kbds, poll, hasChanged, hid, calls, if c then pc else pc'⟩ : InCall).BeforeRight := by
  split
  · next hc => exact hpos hc
  · exact hneg

/-- Without an unsafe shift a call does not get past the first turn of the right loop. -/
theorem BeforeRight.step (h : s.BeforeRight) (hsafe : ∀ k ∈ s.shifts, k < 32)
    (hstep : s.advance sendErr modes = some t) : t.BeforeRight := by
  obtain ⟨kbds, poll, hasChanged, hid, calls, pc⟩ := s
  cases pc with
  | start =>
    obtain rfl := Option.some.inj hstep
    exact beforeRight_ite id trivial
  | illegal =>
    obtain rfl := Option.some.inj hstep
    -- the word is the one that the test before has seen
    rw [show InCall.valid _ = true from h]
    trivial
  | layer =>
    obtain rfl := Option.some.inj hstep
    exact beforeRight_ite (fun _ => trivial) trivial
  | left =>
    obtain rfl := Option.some.inj hstep
    exact beforeRight_ite (fun _ => trivial) rfl
  | layerBoth | layerOne =>
    simp only [advance] at hstep
    split at hstep <;> obtain rfl := Option.some.inj hstep <;> trivial
  | leftTurn i =>
    simp only [advance] at hstep
    split at hstep
    · obtain rfl := Option.some.inj hstep
      exact beforeRight_ite (fun _ => trivial) trivial
    · obtain rfl := Option.some.inj hstep
      trivial
  | mask | leftPrint i | leftTest i | leftReport i down =>
    obtain rfl := Option.some.inj hstep
    trivial
  | store =>
    obtain rfl := Option.some.inj hstep
    exact rfl
  | rightTurn i =>
    -- the first turn of the right loop shifts by `2 ^ 32 - 1`
    obtain rfl : i = 0 := h
    exact absurd (hsafe (turnShift 0) (by simp [shifts, andShifts])) (by decide)
  | printIllegal | done => cases h

end InCall

/-- **No call is free of undefined shifts**, whatever the words it finds. -/
theorem first_turn_unsafe (sendErr : Nat → Int) (modes : ConnModes) (kbds : KbdsClient)
    (poll : Poll) (hasChanged : Word) (hid : Except Fault Hid) :
    ¬∀ n, (inCall sendErr modes kbds poll hasChanged hid).Along (fun s _ t => s.SafeStep t)
      (List.replicate n .step) := by
  intro hsafe
  obtain ⟨n, s, hrun, hpc, -⟩ := quiet_call sendErr modes kbds poll hasChanged hid
  have hsteps := (hsafe n).and (Machine.alongFrom_of_forall (E := (· = .step)) _ fun e he =>
    List.eq_of_mem_replicate he)
  have hinit : (InCall.enter kbds poll hasChanged hid).BeforeRight := trivial
  have hall := Machine.AlwaysFrom.of_inv hinit hsteps ?_
  · -- so the call would not return
    have hlast := hall.last hrun
    rw [InCall.BeforeRight, hpc] at hlast
    exact hlast
  · rintro s e t hs ⟨hsafe, rfl⟩ hstep
    exact hs.step hsafe.shifts hstep

/-- The first call after the start, with no left word yet and all words of the poll 0: its
fourth step is the first turn of the right loop. -/
theorem shift_by_max_count :
    ¬∀ n, (inCall (fun _ => 0) (Vector.replicate hidsMaxClientCount ⟨none, false⟩) .clientInit .zero
      0 (.ok ⟨.zero, []⟩)).Along (fun s _ t => s.SafeStep t) (List.replicate n .step) := by
  intro hall
  have hfourth := (hall 4).2.2.2.1
  exact absurd (hfourth.shifts 4294967295 (by decide)) (by decide)

/-! ## All other shifts and all indices are safe -/

namespace InCall

/-- Inside a turn of the left loop, there is a switch below the count. -/
def InTurn : Pc → Prop
  | .leftPrint i | .leftTest i | .leftReport i _ => 0 < i ∧ i < 25
  | _ => True

/-- The invariant of a call. -/
structure Bounded (s : InCall) : Prop where
  calls : ∀ c ∈ s.calls, c.position < 24
  turn : InTurn s.pc

variable {sendErr : Nat → Int} {modes : ConnModes} {s t : InCall}

theorem Bounded.inBounds (h : s.Bounded) : s.InBounds where
  positions := fun c hc => Nat.le_of_lt_succ (h.calls c hc)
  accesses := by
    intro c hc lOrR
    have haccess := keyAt_keyMap s.poll.layerSelection (p := (lOrR, c.position)) (h.calls c hc)
    exact Option.isSome_iff_exists.mpr ⟨_, haccess⟩

theorem turnShift_lt {i : Nat} (hpos : 0 < i) (hi : i < 25) : turnShift i < 32 := by
  rw [turnShift, toNat_position hpos hi]
  omega

theorem mem_isIthBitSetShifts {bit k : Nat} (h : k ∈ isIthBitSetShifts bit) : k < 32 := by
  unfold isIthBitSetShifts at h
  split at h
  · cases h
  · next hlt =>
    obtain rfl := List.mem_singleton.mp h
    exact Nat.lt_of_not_le hlt

theorem mem_orShifts {a : Bool} {xs ys : List Nat} {k : Nat} (h : k ∈ orShifts a xs ys) :
    k ∈ xs ∨ k ∈ ys := by
  cases a <;> simp_all [orShifts]

theorem mem_andShifts {a : Bool} {xs ys : List Nat} {k : Nat} (h : k ∈ andShifts a xs ys) :
    k ∈ xs ∨ k ∈ ys := by
  cases a <;> simp_all [andShifts]

theorem Bounded.shifts (h : s.Bounded) (hturn : ¬FirstTurn s.pc) : ∀ k ∈ s.shifts, k < 32 := by
  obtain ⟨kbds, poll, hasChanged, hid, calls, pc⟩ := s
  intro k hk
  cases pc with
  | layer | layerOne =>
    rcases mem_orShifts hk with hk | hk <;> exact mem_isIthBitSetShifts hk
  | layerBoth =>
    rcases mem_orShifts hk with hk | hk <;> rcases mem_andShifts hk with hk | hk <;>
      exact mem_isIthBitSetShifts hk
  | leftTurn i =>
    obtain ⟨hi, hk⟩ := List.mem_ite_nil_right.mp hk
    obtain rfl := List.mem_singleton.mp hk
    exact turnShift_lt (Nat.pos_of_ne_zero hturn) hi
  | rightTurn i =>
    obtain ⟨hi, hk⟩ := List.mem_ite_nil_right.mp hk
    have hk : k = turnShift i := by
      rcases mem_andShifts hk with hk | hk <;> exact List.mem_singleton.mp hk
    rw [hk]
    exact turnShift_lt (Nat.pos_of_ne_zero hturn) hi
  | leftTest i =>
    obtain rfl := List.mem_singleton.mp hk
    exact turnShift_lt h.turn.1 h.turn.2
  | _ => cases hk

/-- A call in the right loop is for a switch below the count. -/
theorem position_lt_of_scanTurn {changed word : Word} {lOrR : Bool} {i : Nat} (hi : i < 25)
    {c : Call} (hc : scanTurn changed word lOrR i = some c) : c.position < 24 :=
  (mem_scanChanges.mp (List.mem_filterMap.mpr ⟨i, List.mem_range.mpr hi, hc⟩)).2.1

theorem Bounded.report (h : s.Bounded) {c : Call} (hc : c.position < 24) :
    ∀ d ∈ s.calls ++ [c], d.position < 24 := by
  intro d hd
  rcases List.mem_append.mp hd with hd | hd
  · exact h.calls d hd
  · obtain rfl := List.mem_singleton.mp hd
    exact hc

theorem Bounded.step (h : s.Bounded) (hstep : s.advance sendErr modes = some t) : t.Bounded := by
  obtain ⟨kbds, poll, hasChanged, hid, calls, pc⟩ := s
  cases pc with
  | start | illegal | layer | left =>
    obtain rfl := Option.some.inj hstep
    exact ⟨h.calls, iteInduction (motive := InTurn) (fun _ => trivial) fun _ => trivial⟩
  | layerBoth | layerOne =>
    simp only [advance] at hstep
    split at hstep <;> obtain rfl := Option.some.inj hstep <;> exact ⟨h.calls, trivial⟩
  | leftTurn i =>
    simp only [advance] at hstep
    split at hstep
    · next hi =>
      obtain rfl := Option.some.inj hstep
      refine ⟨h.calls, iteInduction (motive := InTurn) ?_ fun _ => trivial⟩
      intro hchanged
      exact ⟨((test_ne_zero_iff _ hi).mp hchanged).1, hi⟩
    · obtain rfl := Option.some.inj hstep
      exact ⟨h.calls, trivial⟩
  | leftPrint i | leftTest i =>
    obtain rfl := Option.some.inj hstep
    exact ⟨h.calls, h.turn⟩
  | leftReport i down =>
    obtain rfl := Option.some.inj hstep
    obtain ⟨hpos, hi⟩ : 0 < i ∧ i < 25 := h.turn
    have hlt : (BitVec.ofNat 32 i - 1#32).toNat < 24 := by
      rw [toNat_position hpos hi]
      omega
    exact ⟨h.report hlt, trivial⟩
  | rightTurn i =>
    simp only [advance] at hstep
    split at hstep
    · next hi =>
      obtain rfl := Option.some.inj hstep
      refine ⟨?_, trivial⟩
      split
      · next c hc => exact h.report (position_lt_of_scanTurn hi hc)
      · exact h.calls
    · obtain rfl := Option.some.inj hstep
      exact ⟨h.calls, trivial⟩
  | mask | printIllegal | store =>
    obtain rfl := Option.some.inj hstep
    exact ⟨h.calls, trivial⟩
  | done => cases hstep

end InCall

/-- **Only the first turns are unsafe**: at every point of a call, whatever notifications come
in between, all other shifts have counts below 32, and `create_report` has been called with
positions below 24, inside the key maps. -/
theorem unsafe_only_in_first_turns (sendErr : Nat → Int) (modes : ConnModes) (kbds : KbdsClient)
    (poll : Poll) (hasChanged : Word) (hid : Except Fault Hid) (es : List InCall.Event) :
    (inCall sendErr modes kbds poll hasChanged hid).Along (fun s _ t =>
      (¬InCall.FirstTurn s.pc → ∀ k ∈ s.shifts, k < 32) ∧ t.InBounds) es := by
  have hinit : (InCall.enter kbds poll hasChanged hid).Bounded := ⟨nofun, trivial⟩
  refine Machine.alongFrom_of_inv es hinit ?_
  intro s e t hs hstep
  have ht : t.Bounded := by
    cases e with
    | step => exact hs.step hstep
    | notified data =>
      obtain ⟨r, -, rfl⟩ := Option.map_eq_some_iff.mp hstep
      exact ⟨hs.calls, hs.turn⟩
  exact ⟨ht, hs.shifts, ht.inBounds⟩

end BleKeyboard
