import StackCert.Word

/-!
# Tier reports

A report packs one time for each of eight tiers into a single word. Tier `n`,
counted from one, is held by the field with index `n - 1`, and the layout says
how wide a field is and from which end of the word the fields are counted. A
field of all ones says that its tier was never reached. Tier zero is always
reached, at time zero.

Layouts are usually made by `Layout.ofWidth?`, which admits fields of 16 and 32
bits. A layout of any other width can still be written down; bit offsets and
widths are then limited to 64 and 256 bits, and an operation that goes beyond
has no result.
-/

namespace StackCert

/-- Which end of a report holds the first tier. -/
inductive FieldOrder where
  | lowestFirst
  | highestFirst
deriving DecidableEq, Repr

/-- The width and the order of the fields of a report. -/
structure Layout where
  fieldBits : Nat
  order : FieldOrder
deriving DecidableEq, Repr

namespace Layout

/-- How many tiers a report holds. -/
def tiers : Nat := 8

/-- Fields of 32 bits, the first tier in the lowest. -/
def standard : Layout := ⟨32, .lowestFirst⟩

/-- The layout with the given fields, if their width is supported. -/
def ofWidth? (fieldBits : Nat) (order : FieldOrder) : Option Layout :=
  if fieldBits = 16 ∨ fieldBits = 32 then some ⟨fieldBits, order⟩ else none

/-- The word whose lowest field is all ones, if a field is narrower than a word. -/
def mask? (layout : Layout) : Option Word :=
  if layout.fieldBits < 256 then some (Word.shiftUp 1 layout.fieldBits - 1) else none

/-- The bit at which the field with the given index starts, if that is a 64-bit number. -/
def offset? (layout : Layout) (index : Nat) : Option Nat :=
  let before? :=
    match layout.order with
    | .lowestFirst => some index
    | .highestFirst => if index < tiers then some (tiers - 1 - index) else none
  match before? with
  | none => none
  | some before =>
      if before * layout.fieldBits < UInt64.size then some (before * layout.fieldBits) else none

/-- The report in which no tier was reached. -/
def never? (layout : Layout) : Option Word :=
  (List.range tiers).foldlM (fun report index => do
    let mask ← layout.mask?
    let offset ← layout.offset? index
    return report ||| mask.shiftUp offset) 0

/--
The time at which a tier was reached. Tier zero is reached at time zero, and a
tier past the last one reads as never reached.
-/
def time? (layout : Layout) (report : Word) (tier : Nat) : Option Word :=
  if tier = 0 then some 0
  else if tiers < tier then layout.mask?
  else do
    let offset ← layout.offset? (tier - 1)
    let mask ← layout.mask?
    return report.shiftDown offset &&& mask

/-- Writes a time into the field with the given index, cut to the width of the field. -/
def setField? (layout : Layout) (report : Word) (index : Nat) (time : Word) : Option Word := do
  let offset ← layout.offset? index
  let mask ← layout.mask?
  return (report &&& ~~~(mask.shiftUp offset)) ||| (time &&& mask).shiftUp offset

/-- Writes a time into the fields of the tiers above `first` and up to `last`. -/
def setTiers? (layout : Layout) (report : Word) (first last : Nat) (time : Word) : Option Word :=
  (List.range' first (min last tiers - first)).foldlM
    (fun report index => layout.setField? report index time) report

/-- The time by which each tier of one report is later than in another, or zero. -/
def elapsed? (layout : Layout) (newer older : Word) : Option Word :=
  (List.range tiers).foldlM (fun report index => do
    let newerTime ← layout.time? newer (index + 1)
    let olderTime ← layout.time? older (index + 1)
    layout.setField? report index (newerTime.saturatingSub olderTime)) 0

end Layout

end StackCert
