import BleKeyboard.Base.Words

/-!
# The key tables (`keys.h`)

Machine words, the key usages and modifier masks the two key maps are built
from, the maps themselves, and the helpers of `keys.h` that the report path
calls. A modifier mask and a key usage are both plain bytes (`keyModLalt` and
`keyA` are the same byte): only the position list in `isModChr` tells them
apart.
-/

namespace BleKeyboard

open Base

/-- A 32-bit key state word: bit `p` is the switch at position `p`. -/
abbrev Word := BitVec 32

/-- One byte of a HID report. -/
abbrev Byte := BitVec 8

/-! ## Modifier masks and key usages -/

def keyModLctrl : Byte := 0x01
def keyModLshift : Byte := 0x02
def keyModLalt : Byte := 0x04
def keyModLmeta : Byte := 0x08

def keyNone : Byte := 0x00
def keyA : Byte := 0x04
def keyB : Byte := 0x05
def keyC : Byte := 0x06
def keyD : Byte := 0x07
def keyE : Byte := 0x08
def keyF : Byte := 0x09
def keyG : Byte := 0x0a
def keyH : Byte := 0x0b
def keyI : Byte := 0x0c
def keyJ : Byte := 0x0d
def keyK : Byte := 0x0e
def keyL : Byte := 0x0f
def keyM : Byte := 0x10
def keyN : Byte := 0x11
def keyO : Byte := 0x12
def keyP : Byte := 0x13
def keyQ : Byte := 0x14
def keyR : Byte := 0x15
def keyS : Byte := 0x16
def keyT : Byte := 0x17
def keyU : Byte := 0x18
def keyV : Byte := 0x19
def keyW : Byte := 0x1a
def keyX : Byte := 0x1b
def keyY : Byte := 0x1c
def keyZ : Byte := 0x1d
def key1 : Byte := 0x1e
def key2 : Byte := 0x1f
def key3 : Byte := 0x20
def key4 : Byte := 0x21
def key5 : Byte := 0x22
def key6 : Byte := 0x23
def key7 : Byte := 0x24
def key8 : Byte := 0x25
def key9 : Byte := 0x26
def key0 : Byte := 0x27
def keyEnter : Byte := 0x28
def keyEsc : Byte := 0x29
def keyBackspace : Byte := 0x2a
def keyTab : Byte := 0x2b
def keySpace : Byte := 0x2c
def keyMinus : Byte := 0x2d
def keyEqual : Byte := 0x2e
def keyLeftbrace : Byte := 0x2f
def keyRightbrace : Byte := 0x30
def keyBackslash : Byte := 0x31
def keySemicolon : Byte := 0x33
def keyApostrophe : Byte := 0x34
def keyGrave : Byte := 0x35
def keyComma : Byte := 0x36
def keyDot : Byte := 0x37
def keySlash : Byte := 0x38
def keyF1 : Byte := 0x3a
def keyF2 : Byte := 0x3b
def keyF3 : Byte := 0x3c
def keyF4 : Byte := 0x3d
def keyF5 : Byte := 0x3e
def keyF6 : Byte := 0x3f
def keyF7 : Byte := 0x40
def keyF8 : Byte := 0x41
def keyF9 : Byte := 0x42
def keyF10 : Byte := 0x43
def keyF11 : Byte := 0x44
def keyF12 : Byte := 0x45
def keyRight : Byte := 0x4f
def keyLeft : Byte := 0x50
def keyDown : Byte := 0x51
def keyUp : Byte := 0x52

/-! ## The key maps -/

/-- There are four layers. -/
instance neZeroLayers : NeZero 4 := ⟨by decide⟩

/-- A key map: 4 layers of 4 rows of 6 columns. -/
abbrev KeyMap := Vector (Vector (Vector Byte 6) 4) 4

/-- `key_map_left[4][4][6]`: layer, row, column. -/
def keyMapLeft : KeyMap :=
  #v[#v[#v[keyTab, keyQ, keyW, keyE, keyR, keyT],
      #v[keyModLctrl, keyA, keyS, keyD, keyF, keyG],
      #v[keyModLshift, keyZ, keyX, keyC, keyV, keyB],
      #v[keyNone, keyNone, keyNone, keyModLmeta, keyNone, keySpace]],
    #v[#v[keyTab, key1, key2, key3, key4, key5],
      #v[keyModLctrl, keyNone, keyNone, keyNone, keyNone, keyNone],
      #v[keyModLshift, keyNone, keyNone, keyNone, keyNone, keyNone],
      #v[keyNone, keyNone, keyNone, keyModLmeta, keyNone, keySpace]],
    #v[#v[keyTab, key1, key2, key3, key4, key5],
      #v[keyModLctrl, keyNone, keyNone, keyNone, keyNone, keyNone],
      #v[keyModLshift, keyNone, keyNone, keyNone, keyNone, keyNone],
      #v[keyNone, keyNone, keyNone, keyModLmeta, keyNone, keySpace]],
    #v[#v[keyTab, keyNone, keyNone, keyNone, keyNone, keyNone],
      #v[keyModLctrl, keyNone, keyNone, keyNone, keyNone, keyNone],
      #v[keyModLshift, keyF1, keyF2, keyF3, keyF4, keyF5],
      #v[keyNone, keyNone, keyNone, keyModLmeta, keyNone, keySpace]]]

/-- `key_map_right[4][4][6]`: layer, row, column. -/
def keyMapRight : KeyMap :=
  #v[#v[#v[keyY, keyU, keyI, keyO, keyP, keyBackspace],
      #v[keyH, keyJ, keyK, keyL, keySemicolon, keyApostrophe],
      #v[keyN, keyM, keyComma, keyDot, keySlash, keyEsc],
      #v[keyEnter, keyNone, keyModLalt, keyNone, keyNone, keyNone]],
    #v[#v[key6, key7, key8, key9, key0, keyBackspace],
      #v[keyLeft, keyDown, keyUp, keyRight, keyNone, keyGrave],
      #v[keyNone, keyNone, keyNone, keyNone, keyNone, keyEsc],
      #v[keyEnter, keyNone, keyModLalt, keyNone, keyNone, keyNone]],
    #v[#v[key6, key7, key8, key9, key0, keyBackspace],
      #v[keyMinus, keyEqual, keyRightbrace, keyLeftbrace, keyBackslash, keyNone],
      #v[keyNone, keyNone, keyNone, keyNone, keyNone, keyEsc],
      #v[keyEnter, keyNone, keyModLalt, keyNone, keyNone, keyNone]],
    #v[#v[keyNone, keyNone, keyNone, keyNone, keyNone, keyBackspace],
      #v[keyNone, keyNone, keyNone, keyNone, keyF11, keyF12],
      #v[keyF6, keyF7, keyF8, keyF9, keyF10, keyEsc],
      #v[keyEnter, keyNone, keyModLalt, keyNone, keyNone, keyNone]]]

/-- The key map of one half: `key_map_left` if `lOrR`, else `key_map_right`. -/
def keyMap (lOrR : Bool) : KeyMap := if lOrR then keyMapLeft else keyMapRight

/-- `map[i][j][k]`; `none` if an index lies outside the array. -/
def keyAt (map : KeyMap) (i j k : Nat) : Option Byte :=
  map[i]?.bind fun rows => rows[j]?.bind fun row => row[k]?

theorem keyAt_eq_some (map : KeyMap) {i j k : Nat} (hi : i < 4) (hj : j < 4) (hk : k < 6) :
    keyAt map i j k = some (map[i][j][k]) := by
  simp [keyAt, hi, hj, hk]

/-! ## Helpers of `keys.h` -/

/-- `is_ith_bit_set`. -/
def isIthBitSet (number : Word) (bit : Nat) : Bool :=
  if bit ≥ 32 then false
  else if number &&& (1#32 <<< bit) ≠ 0#32 then true
  else false

/-- `is_mod_chr`: the modifier keys, by position in the key map. -/
def isModChr (lOrR : Bool) (pos : Nat) : Bool :=
  if lOrR then pos == 6 || pos == 12 || pos == 21
  else pos == 20

/-- `set_or_clear_mod_byte`: the new value of `*mod_byte`. -/
def setOrClearModByte (modByte : Byte) (down : Bool) (chr : Byte) : Byte :=
  if down then modByte ||| chr else modByte &&& ~~~chr

theorem getLsbD_setOrClearModByte (modByte : Byte) (down : Bool) (chr : Byte) {i : Nat}
    (hi : i < 8) : (setOrClearModByte modByte down chr).getLsbD i
      = if chr.getLsbD i then down else modByte.getLsbD i := by
  unfold setOrClearModByte
  cases down with
  | true =>
    rw [if_pos rfl, BitVec.getLsbD_or]
    cases chr.getLsbD i <;> simp
  | false =>
    rw [if_neg Bool.false_ne_true, BitVec.getLsbD_and, BitVec.getLsbD_not]
    cases chr.getLsbD i <;> simp [hi]

theorem isIthBitSet_eq (number : Word) (bit : Nat) :
    isIthBitSet number bit = number.getLsbD bit := by
  unfold isIthBitSet
  by_cases hbit : bit < 32
  · rw [if_neg (Nat.not_le_of_lt hbit)]
    have htest := and_one_shiftLeft_ne_zero number hbit
    cases h : number.getLsbD bit <;> simp_all
  · rw [if_pos (Nat.le_of_not_lt hbit)]
    exact (BitVec.getLsbD_of_ge _ _ (Nat.le_of_not_lt hbit)).symm

/-! ## Switch positions

The rest of this file is vocabulary for statements about the tables, not source
code. -/

/-- A switch of the keyboard: its half (`l_or_r`, true for the left) and its
position in that half. -/
abbrev Pos := Bool × Nat

/-- The code that `key_map_*[layer][position / 6][position % 6]` holds for a
switch. -/
def keyCode (layer : Fin 4) (p : Pos) : Byte :=
  (keyAt (keyMap p.1) layer (p.2 / 6) (p.2 % 6)).getD keyNone

/-- The two layer keys: position 22 on the left, 19 on the right. -/
def isLayerKey (p : Pos) : Bool := (p.1 && p.2 == 22) || (!p.1 && p.2 == 19)

/-- The positions whose codes go through the slot table: neither a modifier nor
a layer key. -/
def isPlain (p : Pos) : Bool := !isLayerKey p && !isModChr p.1 p.2

/-- No modifier is a layer key. -/
theorem isLayerKey_of_modifier {lOrR : Bool} {pos : Nat} (hmod : isModChr lOrR pos = true) :
    isLayerKey (lOrR, pos) = false := by
  unfold isModChr at hmod
  unfold isLayerKey
  split at hmod <;> simp_all
  omega

/-- A position is a layer key, a modifier or plain. -/
theorem isModChr_of_not_plain {p : Pos} (hplain : ¬isPlain p = true)
    (hlayer : ¬isLayerKey p = true) : isModChr p.1 p.2 = true := by
  unfold isPlain at hplain
  rw [Bool.eq_false_of_not_eq_true hlayer, Bool.not_false, Bool.true_and] at hplain
  exact Bool.eq_true_of_not_eq_false fun h => hplain (by rw [h]; rfl)

theorem isPlain_iff {p : Pos} :
    isPlain p = true ↔ isLayerKey p = false ∧ isModChr p.1 p.2 = false := by
  rw [isPlain, Bool.and_eq_true, Bool.not_eq_true', Bool.not_eq_true']

/-- Inside the arrays, `keyCode` is what the table access yields. -/
theorem keyAt_keyMap (layer : Fin 4) {p : Pos} (hp : p.2 < 24) :
    keyAt (keyMap p.1) layer (p.2 / 6) (p.2 % 6) = some (keyCode layer p) := by
  have hj : p.2 / 6 < 4 := by omega
  have hk : p.2 % 6 < 6 := Nat.mod_lt _ (by decide)
  rw [keyCode, keyAt_eq_some _ layer.isLt hj hk, Option.getD_some]

/-- No entry of either map is a control key code, so every table entry that
reaches the slot table is stored in a slot. -/
theorem keyCode_lt (layer : Fin 4) {p : Pos} (hp : p.2 < 24) : (keyCode layer p).toNat ≤ 101 := by
  obtain ⟨lOrR, pos⟩ := p
  have hall : ∀ layer : Fin 4, ∀ lOrR : Bool, ∀ pos : Fin 24,
      (keyCode layer (lOrR, pos.val)).toNat ≤ 101 := by decide +kernel
  exact hall layer lOrR ⟨pos, hp⟩

end BleKeyboard
