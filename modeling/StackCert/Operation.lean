import StackCert.Instruction
import StackCert.Text

/-!
# Operations

The table of operations: which opcode stands for which operation, and the
mnemonic it is written with. Most operations are *reducers*: they replace the
values on top of the stack by one value computed from them and do nothing else.
-/

namespace StackCert

/-- An operation that replaces some values on top of the stack by a single one. -/
inductive Reducer where
  | hash
  | add
  | sub
  | mul
  | div
  | mod
  | exp
  | min
  | max
  | saturatingAdd
  | saturatingSub
  | saturatingMul
  | isZero
  | equalTo
  | lessThan
  | greaterThan
  | every
  | any
  | eagerIf
  | saturatingDiff
  | selectLte
  | updateTimes
deriving DecidableEq, Repr

/-- What an instruction does. -/
inductive Operation where
  /-- Pushes a constant of the program. -/
  | constant
  /-- Copies a value of the current frame to the top. -/
  | stack
  /-- Pushes a cell of the context. -/
  | context
  /-- Runs a later source over the values on top. -/
  | call
  /-- Has the host show a part of the machine. -/
  | debug
  /-- Aborts unless the value on top is other than zero. -/
  | ensure
  /-- Has the host read a key. -/
  | get
  /-- Has the host write a value at a key. -/
  | set
  /-- Replaces the values on top by one computed from them. -/
  | reduce (reducer : Reducer)
deriving DecidableEq, Repr

namespace Operation

/-- All operations, by ascending opcode. -/
def all : List Operation :=
  [.constant, .stack, .context, .call, .debug, .reduce .hash,
   .reduce .add, .reduce .sub, .reduce .mul, .reduce .div, .reduce .mod, .reduce .exp,
   .reduce .min, .reduce .max,
   .reduce .saturatingAdd, .reduce .saturatingSub, .reduce .saturatingMul,
   .reduce .isZero, .reduce .equalTo, .reduce .lessThan, .reduce .greaterThan,
   .reduce .every, .reduce .any, .reduce .eagerIf, .ensure,
   .get, .set,
   .reduce .saturatingDiff, .reduce .selectLte, .reduce .updateTimes]

/-- The opcode of an operation. -/
def opcode : Operation → Opcode
  | .constant => ⟨0x00⟩
  | .stack => ⟨0x01⟩
  | .context => ⟨0x02⟩
  | .call => ⟨0x03⟩
  | .debug => ⟨0x04⟩
  | .reduce .hash => ⟨0x05⟩
  | .reduce .add => ⟨0x10⟩
  | .reduce .sub => ⟨0x11⟩
  | .reduce .mul => ⟨0x12⟩
  | .reduce .div => ⟨0x13⟩
  | .reduce .mod => ⟨0x14⟩
  | .reduce .exp => ⟨0x15⟩
  | .reduce .min => ⟨0x16⟩
  | .reduce .max => ⟨0x17⟩
  | .reduce .saturatingAdd => ⟨0x18⟩
  | .reduce .saturatingSub => ⟨0x19⟩
  | .reduce .saturatingMul => ⟨0x1a⟩
  | .reduce .isZero => ⟨0x20⟩
  | .reduce .equalTo => ⟨0x21⟩
  | .reduce .lessThan => ⟨0x22⟩
  | .reduce .greaterThan => ⟨0x23⟩
  | .reduce .every => ⟨0x24⟩
  | .reduce .any => ⟨0x25⟩
  | .reduce .eagerIf => ⟨0x26⟩
  | .ensure => ⟨0x27⟩
  | .get => ⟨0x30⟩
  | .set => ⟨0x31⟩
  | .reduce .saturatingDiff => ⟨0x40⟩
  | .reduce .selectLte => ⟨0x41⟩
  | .reduce .updateTimes => ⟨0x42⟩

/-- The name an operation is written with. -/
def mnemonic : Operation → String
  | .constant => "constant"
  | .stack => "stack"
  | .context => "context"
  | .call => "call"
  | .debug => "debug"
  | .reduce .hash => "hash"
  | .reduce .add => "add"
  | .reduce .sub => "sub"
  | .reduce .mul => "mul"
  | .reduce .div => "div"
  | .reduce .mod => "mod"
  | .reduce .exp => "exp"
  | .reduce .min => "min"
  | .reduce .max => "max"
  | .reduce .saturatingAdd => "saturating-add"
  | .reduce .saturatingSub => "saturating-sub"
  | .reduce .saturatingMul => "saturating-mul"
  | .reduce .isZero => "is-zero"
  | .reduce .equalTo => "equal-to"
  | .reduce .lessThan => "less-than"
  | .reduce .greaterThan => "greater-than"
  | .reduce .every => "every"
  | .reduce .any => "any"
  | .reduce .eagerIf => "eager-if"
  | .ensure => "ensure"
  | .get => "get"
  | .set => "set"
  | .reduce .saturatingDiff => "saturating-diff"
  | .reduce .selectLte => "select-lte"
  | .reduce .updateTimes => "update-times-for-tier-range"

/-- The operation with the given mnemonic. -/
def ofMnemonic? (name : String) : Option Operation :=
  all.find? fun operation => operation.mnemonic == name

/-- An operation as described by the table, in its structural form. -/
def form (operation : Operation) : String :=
  "OpcodeInfo \x7b name: \"" ++ operation.mnemonic ++ "\" \x7d"

end Operation

namespace Opcode

/-- The operation assigned to an opcode. -/
def operation? (opcode : Opcode) : Option Operation :=
  match opcode.byte with
  | 0x00 => some .constant
  | 0x01 => some .stack
  | 0x02 => some .context
  | 0x03 => some .call
  | 0x04 => some .debug
  | 0x05 => some (.reduce .hash)
  | 0x10 => some (.reduce .add)
  | 0x11 => some (.reduce .sub)
  | 0x12 => some (.reduce .mul)
  | 0x13 => some (.reduce .div)
  | 0x14 => some (.reduce .mod)
  | 0x15 => some (.reduce .exp)
  | 0x16 => some (.reduce .min)
  | 0x17 => some (.reduce .max)
  | 0x18 => some (.reduce .saturatingAdd)
  | 0x19 => some (.reduce .saturatingSub)
  | 0x1a => some (.reduce .saturatingMul)
  | 0x20 => some (.reduce .isZero)
  | 0x21 => some (.reduce .equalTo)
  | 0x22 => some (.reduce .lessThan)
  | 0x23 => some (.reduce .greaterThan)
  | 0x24 => some (.reduce .every)
  | 0x25 => some (.reduce .any)
  | 0x26 => some (.reduce .eagerIf)
  | 0x27 => some .ensure
  | 0x30 => some .get
  | 0x31 => some .set
  | 0x40 => some (.reduce .saturatingDiff)
  | 0x41 => some (.reduce .selectLte)
  | 0x42 => some (.reduce .updateTimes)
  | _ => none

/-- The mnemonic of an opcode, or its number if no operation is assigned to it. -/
def form (opcode : Opcode) : String :=
  match opcode.operation? with
  | some operation => operation.mnemonic
  | none => "Opcode(0x" ++ Text.hexByte opcode.byte ++ ")"

/-- Every operation is assigned to its own opcode. -/
@[simp]
theorem operation?_opcode (operation : Operation) :
    operation.opcode.operation? = some operation := by
  cases operation with
  | reduce reducer => cases reducer <;> rfl
  | _ => rfl

/-- An opcode has an operation only if it is the operation's own opcode. -/
theorem eq_opcode_of_operation? {opcode : Opcode} {operation : Operation}
    (assigned : opcode.operation? = some operation) : opcode = operation.opcode := by
  obtain ⟨byte⟩ := opcode
  unfold operation? at assigned
  split at assigned <;> cases assigned <;> simp_all [Operation.opcode]

end Opcode

end StackCert
