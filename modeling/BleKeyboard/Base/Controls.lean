import BleKeyboard.Base.Descriptor

/-!
# What a report says

The fields of a descriptor, with the names of their controls. The usage page is a global item,
the least and the greatest usage are local ones: they name the controls of the next field and
are gone with the next main item. A value of a variable field is the state of one control, a
value of an array field is the name of one that is on.

- `namedFields_toField`: the names are an addition to the fields of `inputFields`;
- `usagesIn`: the controls that a report says are on;
- `mem_usagesFrom_cons`: they are those of its fields, one after the other.

It is for descriptors with one report of each kind, and for ranges of usages.
-/

namespace BleKeyboard.Base

/-- A usage: a page and a number on it. The number 0 stands for no control, on every page. -/
structure Usage where
  page : Nat
  id : Nat
  deriving DecidableEq, Repr

/-- The usages that items have set for the next field. -/
structure Naming where
  page : Nat
  usageMin : Nat
  usageMax : Nat
  deriving DecidableEq, Repr

/-- A field and the names of its controls. -/
structure NamedField extends Field, Naming where
  deriving DecidableEq, Repr

/-- The kinds of reports. -/
inductive ReportKind where
  | input
  | output
  deriving DecidableEq, Repr

/-- The tag of the main items that declare fields of the kind. -/
def ReportKind.tag : ReportKind → Nat
  | .input => 0x20
  | .output => 0x24

/-- The fields of one kind that items declare. -/
def namedFieldsFrom (kind : ReportKind) (g : Globals) (n : Naming) : List Item → List NamedField
  | [] => []
  | it :: its =>
    match it.tag.toNat with
    | 0x05 => namedFieldsFrom kind { g with logicalMin := it.signed } n its
    | 0x09 => namedFieldsFrom kind { g with logicalMax := it.signed } n its
    | 0x1d => namedFieldsFrom kind { g with size := it.value } n its
    | 0x25 => namedFieldsFrom kind { g with count := it.value } n its
    | 0x01 => namedFieldsFrom kind g { n with page := it.value } its
    | 0x06 => namedFieldsFrom kind g { n with usageMin := it.value } its
    | 0x0a => namedFieldsFrom kind g { n with usageMax := it.value } its
    | tag =>
      -- the type of a main item is 0; the local items end with it
      if tag % 4 = 0 then
        (if tag = kind.tag then [⟨⟨g, it.value.testBit 0, !it.value.testBit 1⟩, n⟩] else []) ++
          namedFieldsFrom kind g { n with usageMin := 0, usageMax := 0 } its
      else namedFieldsFrom kind g n its

/-- The fields of one kind that a descriptor declares. -/
def namedFields (kind : ReportKind) (descriptor : List (BitVec 8)) : Option (List NamedField) :=
  (readItems descriptor.length descriptor).map
    (namedFieldsFrom kind ⟨0, 0, 0, 0⟩ ⟨0, 0, 0⟩)

/-- The names come on top of the fields. -/
theorem namedFieldsFrom_toField (g : Globals) (n : Naming) (its : List Item) :
    (namedFieldsFrom .input g n its).map NamedField.toField = fieldsFrom g its := by
  induction its generalizing g n with
  | nil => rfl
  | cons it its ih =>
    rw [namedFieldsFrom, fieldsFrom]
    split
    case h_8 hmin hmax hsize hcount _ _ _ =>
      -- a main item, or one that both leave out
      by_cases hinput : it.tag.toNat = 0x20
      · simp [hinput, ReportKind.tag, ih]
      · split <;> simp_all [ReportKind.tag]
    all_goals next htag => simp only [htag, ih]

/-- The named fields of a descriptor are its fields. -/
theorem namedFields_toField (descriptor : List (BitVec 8)) :
    (namedFields .input descriptor).map (List.map NamedField.toField) = inputFields descriptor := by
  rw [namedFields, inputFields, Option.map_map]
  congr 1
  funext its
  exact namedFieldsFrom_toField _ _ its

namespace NamedField

/-- The control that the `i`-th value of a field turns on: of an array, the one that the value
names if it is within the limits, and else the `i`-th, if its value is not 0. -/
def control (f : NamedField) (value i : Nat) : Option Nat :=
  if f.array then
    if f.logicalMin ≤ value ∧ (value : Int) ≤ f.logicalMax then
      some (f.usageMin + (value - f.logicalMin).toNat)
    else none
  else if value ≠ 0 then some (f.usageMin + i)
  else none

/-- The usages that a field says are on; the field begins at the bit `offset`. -/
def usages (f : NamedField) (report offset : Nat) : List Usage :=
  if f.constant then []
  else
    (((List.range f.count).filterMap fun i => f.control (f.valueAt report offset i) i).filter
      fun id => id ≠ 0 ∧ id ≤ f.usageMax).map (Usage.mk f.page)

theorem usages_of_constant {f : NamedField} (report offset : Nat) (hconstant : f.constant = true) :
    f.usages report offset = [] := if_pos hconstant

theorem mem_usages {f : NamedField} {report offset : Nat} {u : Usage}
    (hdata : f.constant = false) :
    u ∈ f.usages report offset ↔ u.page = f.page ∧ u.id ≠ 0 ∧ u.id ≤ f.usageMax ∧
      ∃ i < f.count, f.control (f.valueAt report offset i) i = some u.id := by
  rw [usages, hdata, if_neg Bool.false_ne_true, List.mem_map]
  simp only [List.mem_filter, List.mem_filterMap, List.mem_range, decide_eq_true_eq]
  constructor
  · rintro ⟨id, ⟨hcontrol, hne, hmax⟩, rfl⟩
    exact ⟨rfl, hne, hmax, hcontrol⟩
  · rintro ⟨hpage, hne, hmax, hcontrol⟩
    exact ⟨u.id, ⟨hcontrol, hne, hmax⟩, hpage ▸ rfl⟩

end NamedField

/-- The usages that the fields from the bit `offset` on say are on. -/
def usagesFrom (report : Nat) : Nat → List NamedField → List Usage
  | _, [] => []
  | offset, f :: fs => f.usages report offset ++ usagesFrom report (offset + f.bits) fs

theorem mem_usagesFrom_cons {report offset : Nat} {f : NamedField} {fs : List NamedField}
    {u : Usage} : u ∈ usagesFrom report offset (f :: fs) ↔
      u ∈ f.usages report offset ∨ u ∈ usagesFrom report (offset + f.bits) fs := List.mem_append

/-- The usages that a report of a descriptor says are on, if the descriptor can be read. -/
def usagesIn (kind : ReportKind) (descriptor report : List (BitVec 8)) : Option (List Usage) :=
  (namedFields kind descriptor).map (usagesFrom (ofBytesLE report) 0)

end BleKeyboard.Base
