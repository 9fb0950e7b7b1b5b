import BleKeyboard.Link.Account

/-!
# The layer and the layer keys

The poll looks at the layer keys now and at the poll before, so that a key pressed or let go
together with its layer key is taken in its layer. For the right half the two words are meant
to be `keystate_right` and `last_keystate_right`: but nothing assigns `keystate_right`, and
`last_keystate_right` is the word of now. So layer 3 is chosen from the left word of before
with the right word of now, and a right layer key that has just been let go is not seen.

`layer_follows_iff`: the layer is the one of the held layer keys exactly on the runs in which
every call finds the layer keys as `LayerKeysSettled` says.
-/

namespace BleKeyboard

open Base

universe u

/-- The layer of the held layer keys, for the left and the right word of now and of before. -/
def heldLayer (left left' right right' : Word) : Fin 4 :=
  if left.getLsbD 22 && right.getLsbD 19 || left'.getLsbD 22 && right'.getLsbD 19 then 3
  else if left.getLsbD 22 || left'.getLsbD 22 then 1
  else if right.getLsbD 19 || right'.getLsbD 19 then 2
  else 0

/-- What `call_key_report` has to find, besides the left word, to choose the layer of the
held layer keys; `left'` is the left word dispatched before.

- The left layer key is down: if the right one is, the left word compared with has the left
  one down too; if not, they were not both down before.
- The left layer key is up: the left word compared with says of it what the word dispatched
  before does; if it has just been let go, the right one has not moved; if not, the right one
  has not just been let go. -/
def LayerKeysSettled (keystates left' : Word) (p : Poll) : Prop :=
  let both' := left'.getLsbD 22 && p.dispatchedRight.getLsbD 19
  if keystates.getLsbD 22 then
    if p.lastKeystateRight.getLsbD 19 then p.lastKeystateLeft.getLsbD 22 = true else both' = false
  else
    p.lastKeystateLeft.getLsbD 22 = left'.getLsbD 22 ∧
      if left'.getLsbD 22 then p.lastKeystateRight.getLsbD 19 = p.dispatchedRight.getLsbD 19
      else p.dispatchedRight.getLsbD 19 = true → p.lastKeystateRight.getLsbD 19 = true

instance (keystates left' : Word) (p : Poll) : Decidable (LayerKeysSettled keystates left' p) := by
  unfold LayerKeysSettled
  infer_instance

/-- **Exactness of one choice**, given that `keystate_right` is 0. -/
theorem selectLayer_eq_iff {p : Poll} (hzero : p.keystateRight = 0) {keystates : Word}
    (hk : keystates ≠ noKeystates) (left' : Word) :
    p.selectLayer keystates = heldLayer keystates left' p.lastKeystateRight p.dispatchedRight ↔
      LayerKeysSettled keystates left' p := by
  have hoff : (0 : Word).getLsbD 19 = false := BitVec.getLsbD_zero
  rw [Poll.selectLayer, heldLayer, LayerKeysSettled, if_pos hk]
  simp only [isIthBitSet_eq, hzero, hoff]
  -- what is left are the bits of the two layer keys, in two and three words
  generalize keystates.getLsbD 22 = l, p.lastKeystateLeft.getLsbD 22 = last,
    left'.getLsbD 22 = l', p.lastKeystateRight.getLsbD 19 = r, p.dispatchedRight.getLsbD 19 = r'
  decide +revert

namespace Firmware

variable {κ : Type u} {sendErr : Nat → Int}

/-- A turn that calls `call_key_report` with a left word chooses the layer of the held layer
keys. -/
def FollowsLayerKeys (s : Firmware κ × Account) (t : Firmware κ × Account) : Event κ → Prop
  | .turn _ => s.1.reporting = true → s.1.kbds.keystates ≠ noKeystates →
      t.1.poll.layerSelection = heldLayer s.1.kbds.keystates s.2.left s.1.poll.lastKeystateRight
        s.1.poll.dispatchedRight
  | _ => True

/-- Such a turn finds the layer keys settled. -/
def FindsSettled (s : Firmware κ × Account) : Event κ → Prop
  | .turn _ => s.1.reporting = true → s.1.kbds.keystates ≠ noKeystates →
      LayerKeysSettled s.1.kbds.keystates s.2.left s.1.poll
  | _ => True

/-- Nothing assigns `keystate_right`. -/
theorem keystateRight_step {s t : Firmware κ × Account} {e : Event κ}
    (hs : s.1.poll.keystateRight = 0) (ht : (accounting κ sendErr).step s e = some t) :
    t.1.poll.keystateRight = 0 := by
  rw [(accounting_step ht).1.poll, ← hs]
  cases e with
  | turn pins =>
    rw [nextPoll, polled]
    split
    · rfl
    · split <;> rfl
  | readResponse err data =>
    rw [nextPoll]
    unfold invoke readKeystatesCb
    split
    · split <;> rfl
    · rfl
  | _ => rfl

theorem followsLayerKeys_iff {s t : Firmware κ × Account} {e : Event κ}
    (hs : s.1.poll.keystateRight = 0) (ht : (accounting κ sendErr).step s e = some t) :
    FollowsLayerKeys s t e ↔ FindsSettled s e := by
  cases e with
  | turn pins =>
    rw [FollowsLayerKeys, FindsSettled]
    refine forall_congr' fun hrep => forall_congr' fun hk => ?_
    have hlayer : t.1.poll.layerSelection = s.1.poll.selectLayer s.1.kbds.keystates := by
      rw [(accounting_step ht).1.poll, nextPoll, polled, if_pos hrep]
      rfl
    rw [hlayer]
    exact selectLayer_eq_iff hs hk s.2.left
  | _ => exact Iff.rfl

end Firmware

/-- **The layer follows the held layer keys** exactly on the runs in which every call finds
them settled. -/
theorem layer_follows_iff {κ : Type u} (sendErr : Nat → Int) (es : List (Firmware.Event κ)) :
    (accounting κ sendErr).Along (fun s e t => Firmware.FollowsLayerKeys s t e) es ↔
      (accounting κ sendErr).Along (fun s e _ => Firmware.FindsSettled s e) es :=
  Machine.alongFrom_congr (J := fun s => s.1.poll.keystateRight = 0) rfl
    (fun _ _ _ hs ht => Firmware.keystateRight_step hs ht)
    fun _ _ _ hs ht => Firmware.followsLayerKeys_iff hs ht

/-- The two layer keys go down between two polls: the layer is that of the left one alone. -/
theorem both_layer_keys_missed :
    let es : List (Firmware.Event Nat) := [.connected 1 0 .peripheral 0, .securityChanged 1 0,
      .turn (pinsOf 0x80000), .notified (some [0, 0, 0x40, 0]), .turn (pinsOf 0x80000)]
    ¬(accounting Nat (fun _ => 0)).Along (fun s e t => Firmware.FollowsLayerKeys s t e) es := by
  intro es hall
  have hturn := hall.2.2.2.2.1 (by decide) (by decide)
  exact absurd hturn (by decide +kernel)

end BleKeyboard
