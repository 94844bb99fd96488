import StackCert.Bytes

/-!
# Words

The values a program computes with are unsigned words of 256 bits. Beside the
wrapping arithmetic of `BitVec`, a word has checked operations, which return no
value when the exact result is not a word, and saturating ones, which return the
nearest word.
-/

namespace StackCert

/-- An unsigned number of 256 bits. -/
abbrev Word := BitVec 256

namespace Word

/-- The largest word. -/
def largest : Word := BitVec.allOnes 256

/-- The word of a natural number, if the number can be read back from it. -/
def ofNat? (number : Nat) : Option Word :=
  if (BitVec.ofNat 256 number).toNat = number then some (BitVec.ofNat 256 number) else none

/-- One for a condition that holds and zero for one that does not. -/
def ofBool (condition : Bool) : Word := if condition then 1 else 0

/-- The exact sum, if it is a word. -/
def add? (left right : Word) : Option Word := ofNat? (left.toNat + right.toNat)

/-- The exact difference, if it is not negative. -/
def sub? (left right : Word) : Option Word := if right ≤ left then some (left - right) else none

/-- The exact product, if it is a word. -/
def mul? (left right : Word) : Option Word := ofNat? (left.toNat * right.toNat)

/-- The quotient rounded down, if the divisor is not zero. -/
def div? (left right : Word) : Option Word := if right = 0 then none else some (left / right)

/-- The remainder, if the divisor is not zero. -/
def mod? (left right : Word) : Option Word := if right = 0 then none else some (left % right)

/--
The exact power, if it is a word. Every power with exponent zero is one. A base
above one outgrows the words at the latest at exponent 256, so larger exponents
are never raised to.
-/
def pow? (base exponent : Word) : Option Word :=
  if exponent = 0 then some 1
  else if base ≤ 1 then some base
  else if exponent < 256 then ofNat? (Nat.pow base.toNat exponent.toNat)
  else none

/-- The sum, or the largest word if that is smaller. -/
def saturatingAdd (left right : Word) : Word := (add? left right).getD largest

/-- The difference, or zero if that is larger. -/
def saturatingSub (left right : Word) : Word := (sub? left right).getD 0

/-- The product, or the largest word if that is smaller. -/
def saturatingMul (left right : Word) : Word := (mul? left right).getD largest

/-- The smaller of two words. -/
def lesser (left right : Word) : Word := if left ≤ right then left else right

/-- The larger of two words. -/
def greater (left right : Word) : Word := if left ≤ right then right else left

/-- Moves the bits up; from 256 places on nothing is left. -/
def shiftUp (word : Word) (places : Nat) : Word := word <<< min places 256

/-- Moves the bits down; from 256 places on nothing is left. -/
def shiftDown (word : Word) (places : Nat) : Word := word >>> min places 256

/-- The 32 bytes of a word, least significant first. -/
def littleEndian (word : Word) : List UInt8 := Bytes.littleEndian 32 word.toNat

/-- The 32 bytes of a word, most significant first. -/
def bigEndian (word : Word) : List UInt8 := Bytes.bigEndian 32 word.toNat

/-- The word written by at most 32 bytes, least significant first. -/
def ofLittleEndian (bytes : List UInt8) : Word := BitVec.ofNat 256 (Bytes.ofLittleEndian bytes)

/-- The word written by at most 32 bytes, most significant first. -/
def ofBigEndian (bytes : List UInt8) : Word := BitVec.ofNat 256 (Bytes.ofBigEndian bytes)

/-- A word in decimal. -/
def decimal (word : Word) : String := toString word.toNat

/-- A word in hexadecimal, marked `0x` and without leading zeros. -/
def hexadecimal (word : Word) : String := "0x" ++ String.ofList (Nat.toDigits 16 word.toNat)

theorem shiftUp_eq (word : Word) (places : Nat) : word.shiftUp places = word <<< places := by
  unfold shiftUp
  by_cases small : places ≤ 256
  · rw [Nat.min_eq_left small]
  · rw [Nat.min_eq_right (by omega), BitVec.shiftLeft_eq_zero (by omega),
      BitVec.shiftLeft_eq_zero (by omega)]

theorem shiftDown_eq (word : Word) (places : Nat) : word.shiftDown places = word >>> places := by
  unfold shiftDown
  by_cases small : places ≤ 256
  · rw [Nat.min_eq_left small]
  · rw [Nat.min_eq_right (by omega), BitVec.ushiftRight_eq_zero (by omega),
      BitVec.ushiftRight_eq_zero (by omega)]

end Word

end StackCert
