import StackCert.Failure
import StackCert.Selection

/-!
# Operands and stack effects

How each operation reads its operand, and how many values it takes from the
stack and puts there. The effect is known from the instruction alone, before
anything is run; an operand that describes no effect is out of bounds.
-/

namespace StackCert

/-- The context cell named by an operand. -/
structure CellOperand where
  column : Nat
  row : Nat
deriving DecidableEq, Repr

/-- The column in the upper half of the operand, the row in the lower half. -/
def CellOperand.ofByte (operand : UInt8) : CellOperand :=
  ⟨operand.toNat / 16, operand.toNat % 16⟩

/-- The call named by an operand. -/
structure CallOperand where
  source : Nat
  inputs : Nat
  outputs : Nat
deriving DecidableEq, Repr

/-- Two bits of inputs, two bits of outputs, and the source in the lower half. -/
def CallOperand.ofByte (operand : UInt8) : CallOperand :=
  ⟨operand.toNat % 16, operand.toNat / 64, operand.toNat / 16 % 4⟩

/-- The selection named by an operand. The numbers of logic and mode need not name any. -/
structure SelectOperand where
  logic : Nat
  mode : Nat
  reports : Nat
deriving DecidableEq, Repr

/-- One bit of logic, two bits of mode, and the number of reports. -/
def SelectOperand.ofByte (operand : UInt8) : SelectOperand :=
  ⟨operand.toNat / 128, operand.toNat / 32 % 4, operand.toNat % 32⟩

/-- The range of tiers named by an operand: those above `first` and up to `last`. -/
structure TierOperand where
  first : Nat
  last : Nat
deriving DecidableEq, Repr

/-- The first bound in the lower half of the operand, the last in the upper half. -/
def TierOperand.ofByte (operand : UInt8) : TierOperand :=
  ⟨operand.toNat % 16, operand.toNat / 16⟩

/-- The part of the machine that a host is asked to show. -/
inductive DebugStyle where
  /-- The values of the current frame. -/
  | stack
  /-- The constants of the program. -/
  | constants
  /-- The cells of the context. -/
  | context
  /-- The source and the position of the current frame. -/
  | source
deriving DecidableEq, Repr

/-- The style with the given number. -/
def DebugStyle.ofNat? : Nat → Option DebugStyle
  | 0 => some .stack
  | 1 => some .constants
  | 2 => some .context
  | 3 => some .source
  | _ => none

/-- How many values an instruction takes from the stack and how many it puts there. -/
structure Effect where
  pops : Nat
  pushes : Nat
deriving DecidableEq, Repr

namespace Reducer

/-- How many values a reducer replaces. -/
def arity (reducer : Reducer) (operand : UInt8) : Except Failure Nat :=
  match reducer with
  | .isZero => .ok 1
  | .equalTo | .lessThan | .greaterThan | .saturatingDiff => .ok 2
  | .eagerIf => .ok 3
  | .selectLte =>
      let select := SelectOperand.ofByte operand
      if select.reports = 0 ∨ (Mode.ofNat? select.mode).isNone then .error .operandOutOfBounds
      else .ok (select.reports + 1)
  | .updateTimes =>
      let range := TierOperand.ofByte operand
      if range.last < range.first ∨ Layout.tiers < range.last then .error .operandOutOfBounds
      else .ok 2
  | _ => if operand = 0 then .error .operandOutOfBounds else .ok operand.toNat

end Reducer

namespace Operation

/-- The effect of an operation with the given operand. -/
def effect (operation : Operation) (operand : UInt8) : Except Failure Effect :=
  match operation with
  | .constant | .stack | .context => .ok ⟨0, 1⟩
  | .call =>
      let call := CallOperand.ofByte operand
      .ok ⟨call.inputs, call.outputs⟩
  | .debug =>
      if (DebugStyle.ofNat? operand.toNat).isNone then .error .operandOutOfBounds else .ok ⟨0, 0⟩
  | .ensure => .ok ⟨1, 0⟩
  | .get => .ok ⟨1, 1⟩
  | .set => .ok ⟨2, 0⟩
  | .reduce reducer => (reducer.arity operand).map fun arity => ⟨arity, 1⟩

end Operation

namespace Instruction

/-- The operation of an instruction, or the failure that there is none. -/
def operation (instruction : Instruction) : Except Failure Operation :=
  match instruction.opcode.operation? with
  | some operation => .ok operation
  | none => .error (.unknownOpcode instruction.opcode)

/-- The effect of an instruction. -/
def effect (instruction : Instruction) : Except Failure Effect :=
  match instruction.operation with
  | .error failure => .error failure
  | .ok operation => operation.effect instruction.operand

/-- The call an instruction makes, if it is one. -/
def call? (instruction : Instruction) : Option CallOperand :=
  if instruction.opcode = Operation.call.opcode then some (CallOperand.ofByte instruction.operand)
  else none

theorem operation_eq_ok_iff {instruction : Instruction} {operation : Operation} :
    instruction.operation = .ok operation ↔ instruction.opcode.operation? = some operation := by
  unfold Instruction.operation
  cases instruction.opcode.operation? <;> simp

theorem call?_of_plain {instruction : Instruction} {operation : Operation}
    (assigned : instruction.operation = .ok operation) (plain : operation ≠ .call) :
    instruction.call? = none := by
  have opcode := Opcode.eq_opcode_of_operation? (operation_eq_ok_iff.mp assigned)
  have other : operation.opcode ≠ Operation.call.opcode := by
    intro same
    have found := Opcode.operation?_opcode operation
    rw [same, Opcode.operation?_opcode] at found
    exact plain (Option.some.inj found).symm
  rw [call?, opcode, if_neg other]

theorem call?_of_call {instruction : Instruction}
    (assigned : instruction.operation = .ok .call) :
    instruction.call? = some (CallOperand.ofByte instruction.operand) := by
  rw [call?, Opcode.eq_opcode_of_operation? (operation_eq_ok_iff.mp assigned), if_pos rfl]

end Instruction

end StackCert
