/-!
# Instructions

An instruction is two bytes: an opcode, which selects the operation, and an
operand, which the operation reads in its own way. Every byte is an opcode, also
one that no operation is assigned to.
-/

namespace StackCert

/-- The byte that selects an operation. -/
structure Opcode where
  byte : UInt8
deriving DecidableEq, Repr

/-- An opcode with its operand. -/
structure Instruction where
  opcode : Opcode
  operand : UInt8
deriving DecidableEq, Repr

namespace Instruction

/-- How many bytes an instruction takes. -/
def width : Nat := 2

/-- The bytes of an instruction, opcode first. -/
def bytes (instruction : Instruction) : List UInt8 :=
  [instruction.opcode.byte, instruction.operand]

end Instruction

end StackCert
