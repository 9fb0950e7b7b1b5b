import Mathlib.Data.Nat.Bitwise

/-!
# HID report descriptors

A descriptor is a list of short items: a byte with the tag and the size of the data, and the
data. Global items set what holds for the fields to come, and an input item declares the next
field of the input report. The report is one number, its first byte lowest, and a field is
`count` values of `size` bits each.

`inputFields` reads the fields off a descriptor, and `Conforms` is what they ask of a report.
It is for descriptors with one input report and without Push, Pop and long items.
-/

namespace BleKeyboard.Base

/-- Bytes as a number, the first one lowest. -/
def ofBytesLE : List (BitVec 8) → Nat
  | [] => 0
  | b :: bs => b.toNat + 256 * ofBytesLE bs

/-- The byte at a position. -/
theorem ofBytesLE_byte (bs : List (BitVec 8)) (k : Nat) :
    ofBytesLE bs >>> (8 * k) % 256 = (bs.getD k 0).toNat := by
  induction bs generalizing k with
  | nil => simp [ofBytesLE]
  | cons b bs ih =>
    have hb := b.isLt
    cases k with
    | zero =>
      rw [ofBytesLE, Nat.mul_zero, Nat.shiftRight_zero, List.getD_cons_zero]
      omega
    | succ k =>
      have hshift : (b.toNat + 256 * ofBytesLE bs) >>> (8 * (k + 1))
          = ofBytesLE bs >>> (8 * k) := by
        rw [Nat.mul_succ, Nat.add_comm (8 * k) 8, Nat.shiftRight_add]
        refine congrArg (· >>> (8 * k)) ?_
        rw [Nat.shiftRight_eq_div_pow]
        omega
      rw [ofBytesLE, hshift, ih, List.getD_cons_succ]

/-- A short item: its type and tag, and its data. -/
structure Item where
  tag : BitVec 6
  data : List (BitVec 8)
  deriving DecidableEq, Repr

namespace Item

/-- The size of the data that follows the first byte of an item. -/
def sizeAfter (b : BitVec 8) : Nat :=
  if b.extractLsb' 0 2 = 3 then 4 else (b.extractLsb' 0 2).toNat

/-- The data as a number that is not negative. -/
def value (it : Item) : Nat := ofBytesLE it.data

/-- The data as a number with a sign. -/
def signed (it : Item) : Int := (BitVec.ofNat (8 * it.data.length) it.value).toInt

end Item

/-- The first `n` items, if the bytes end with one. -/
def readItems : Nat → List (BitVec 8) → Option (List Item)
  | _, [] => some []
  | 0, _ :: _ => none
  | n + 1, b :: bs =>
    if Item.sizeAfter b ≤ bs.length then
      (readItems n (bs.drop (Item.sizeAfter b))).map
        (⟨b.extractLsb' 2 6, bs.take (Item.sizeAfter b)⟩ :: ·)
    else none

/-- What the global items have set. -/
structure Globals where
  logicalMin : Int
  logicalMax : Int
  size : Nat
  count : Nat
  deriving DecidableEq, Repr

/-- A field of a report. -/
structure Field extends Globals where
  /-- The field is padding. -/
  constant : Bool
  /-- Each value names a control, instead of being the state of one. -/
  array : Bool
  deriving DecidableEq, Repr

/-- The input fields that items declare. -/
def fieldsFrom (g : Globals) : List Item → List Field
  | [] => []
  | it :: its =>
    match it.tag.toNat with
    | 0x05 => fieldsFrom { g with logicalMin := it.signed } its
    | 0x09 => fieldsFrom { g with logicalMax := it.signed } its
    | 0x1d => fieldsFrom { g with size := it.value } its
    | 0x25 => fieldsFrom { g with count := it.value } its
    | 0x20 => ⟨g, it.value.testBit 0, !it.value.testBit 1⟩ :: fieldsFrom g its
    | _ => fieldsFrom g its

/-- The input fields of a descriptor. -/
def inputFields (descriptor : List (BitVec 8)) : Option (List Field) :=
  (readItems descriptor.length descriptor).map (fieldsFrom ⟨0, 0, 0, 0⟩)

namespace Field

/-- The size of the field in bits. -/
def bits (f : Field) : Nat := f.size * f.count

/-- A value of the field, which begins at the bit `offset` of the report. -/
def valueAt (f : Field) (report offset i : Nat) : Nat :=
  report >>> (offset + f.size * i) % 2 ^ f.size

/-- The values of the field are between its limits. -/
def InRange (f : Field) (report offset : Nat) : Prop :=
  f.constant = false → ∀ i < f.count,
    f.logicalMin ≤ f.valueAt report offset i ∧ (f.valueAt report offset i : Int) ≤ f.logicalMax

variable {f : Field} {report offset : Nat}

/-- Limits that leave room for every value of the size. -/
theorem inRange_of_size (hmin : f.logicalMin ≤ 0) (hmax : (2 ^ f.size : Int) ≤ f.logicalMax + 1) :
    f.InRange report offset := by
  intro _ i _
  have hlt : f.valueAt report offset i < 2 ^ f.size := Nat.mod_lt _ (Nat.two_pow_pos _)
  have hlt : (f.valueAt report offset i : Int) < 2 ^ f.size := by exact_mod_cast hlt
  omega

theorem inRange_of_constant (hconstant : f.constant = true) : f.InRange report offset := by
  intro hdata
  rw [hconstant] at hdata
  cases hdata

end Field

/-- The fields, from the bit `offset` on, fill the report up to the bit `n`. -/
def Fill (report n : Nat) : Nat → List Field → Prop
  | offset, [] => offset = n
  | offset, f :: fs => f.InRange report offset ∧ Fill report n (offset + f.bits) fs

/-- A report has exactly the fields of the descriptor, each within its limits. -/
def Conforms (descriptor report : List (BitVec 8)) : Prop :=
  ∃ fields, inputFields descriptor = some fields ∧
    Fill (ofBytesLE report) (8 * report.length) 0 fields

end BleKeyboard.Base
