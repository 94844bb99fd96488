/-!
# Byte strings and the numbers they write

A number is written into bytes with its least significant byte first
(`Bytes.littleEndian`) or last (`Bytes.bigEndian`). Reading takes a byte string
of any length and returns the natural number it denotes, so a reader decides by
itself how many bytes it takes.
-/

namespace StackCert

namespace Bytes

/-- The `width` lowest bytes of a number, least significant first. -/
def littleEndian : Nat → Nat → List UInt8
  | 0, _ => []
  | width + 1, number => UInt8.ofNat (number % 256) :: littleEndian width (number / 256)

/-- The number whose bytes are listed least significant first. -/
def ofLittleEndian : List UInt8 → Nat
  | [] => 0
  | byte :: bytes => byte.toNat + 256 * ofLittleEndian bytes

/-- The `width` lowest bytes of a number, most significant first. -/
def bigEndian (width number : Nat) : List UInt8 :=
  (littleEndian width number).reverse

/-- The number whose bytes are listed most significant first. -/
def ofBigEndian (bytes : List UInt8) : Nat :=
  bytes.foldl (fun number byte => 256 * number + byte.toNat) 0

/-- Splits off exactly `count` leading bytes. -/
def split? (count : Nat) (bytes : List UInt8) : Option (List UInt8 × List UInt8) :=
  if count ≤ bytes.length then some (bytes.take count, bytes.drop count) else none

@[simp]
theorem length_littleEndian (width number : Nat) :
    (littleEndian width number).length = width := by
  induction width generalizing number with
  | zero => rfl
  | succ width ih => simp [littleEndian, ih]

end Bytes

end StackCert
