import StackCert.Operation
import StackCert.Text.Quoted

/-!
# Failures, exits and rejections

A `Failure` is the cause of a program's, a machine's or a host's refusal to go
on. An `Exit` ends a run, and a `Rejection` says at which place of a program
certification found a failure. Each has a message for people and a structural
form for log lines.

One failure is not returned by anything: a run that comes to an operation without
a result breaks off there, and `Failure.undefined` marks its end.
-/

namespace StackCert

/-- Why an operation could not be carried out. -/
inductive Failure where
  /-- No operation is assigned to the opcode. -/
  | unknownOpcode (opcode : Opcode)
  | stackUnderflow
  | stackOverflow
  /--
  The operand names a constant, a context cell, a stack slot or a source that
  does not exist, or describes no stack effect.
  -/
  | operandOutOfBounds
  /-- A source ended with another number of values than was declared for it. -/
  | stackMismatch (expected actual : Nat)
  /-- A condition of the program did not hold; it carries the code of the condition. -/
  | ensureFailed (code : UInt8)
  | malformedEncoding
  | resourceExhausted
  /-- The exact result of an arithmetic operation is not a word. -/
  | overflow
  | divisionByZero
  /-- The layout of tier reports gives the operation no result, and the run broke off in it. -/
  | undefined
  /-- The host's own reason. -/
  | other (reason : String)
deriving DecidableEq, Repr

namespace Failure

/--
Whether the failure says that a certified property was violated. The others are
aborts that the program expresses itself.
-/
def isFatal : Failure → Bool
  | .ensureFailed _ | .overflow | .divisionByZero => false
  | _ => true

/-- A failure in words. -/
def message : Failure → String
  | .unknownOpcode opcode => "unknown opcode 0x" ++ Text.hexByte opcode.byte
  | .stackUnderflow => "stack underflow"
  | .stackOverflow => "stack overflow"
  | .operandOutOfBounds => "operand out of bounds"
  | .stackMismatch expected actual =>
      "stack mismatch: expected " ++ toString expected ++ " values, found " ++ toString actual
  | .ensureFailed code => "ensure failed with code " ++ toString code.toNat
  | .malformedEncoding => "malformed encoding"
  | .resourceExhausted => "resource exhausted"
  | .overflow => "arithmetic overflow"
  | .divisionByZero => "division by zero"
  | .undefined => "undefined operation"
  | .other reason => reason

/-- The kind of a failure, without what it carries. -/
def kind : Failure → String
  | .unknownOpcode _ => "UnknownOpcode"
  | .stackUnderflow => "StackUnderflow"
  | .stackOverflow => "StackOverflow"
  | .operandOutOfBounds => "OperandOutOfBounds"
  | .stackMismatch _ _ => "StackMismatch"
  | .ensureFailed _ => "EnsureFailed"
  | .malformedEncoding => "MalformedEncoding"
  | .resourceExhausted => "ResourceExhausted"
  | .overflow => "Overflow"
  | .divisionByZero => "DivisionByZero"
  | .undefined => "Undefined"
  | .other _ => "Other"

/-- The kind of a failure with what it carries. -/
def form (failure : Failure) : String :=
  match failure with
  | .unknownOpcode opcode => failure.kind ++ "(" ++ opcode.form ++ ")"
  | .stackMismatch expected actual =>
      failure.kind ++ " \x7b expected: " ++ toString expected ++ ", actual: " ++ toString actual ++
        " \x7d"
  | .ensureFailed code => failure.kind ++ "(" ++ toString code.toNat ++ ")"
  | .other reason => failure.kind ++ "(" ++ Text.quoted reason ++ ")"
  | _ => failure.kind

end Failure

/-- How a run ended. -/
inductive Exit where
  /-- The entry source ran to its end. -/
  | stopped
  | failed (failure : Failure)
deriving DecidableEq, Repr

namespace Exit

/-- An exit in its structural form. -/
def form : Exit → String
  | .stopped => "Succeed(Stopped)"
  | .failed failure => "Error(" ++ failure.form ++ ")"

end Exit

/-- A failure found by certification, at a byte position of a source. -/
structure Rejection where
  source : Nat
  position : Nat
  failure : Failure
deriving DecidableEq, Repr

namespace Rejection

/-- A rejection in words. -/
def message (rejection : Rejection) : String :=
  "source " ++ toString rejection.source ++ " at offset " ++ toString rejection.position ++ ": " ++
    rejection.failure.message

/-- A rejection in its structural form. -/
def form (rejection : Rejection) : String :=
  "VerificationFault \x7b source: " ++ toString rejection.source ++ ", position: " ++
    toString rejection.position ++ ", error: " ++ rejection.failure.form ++ " \x7d"

end Rejection

end StackCert
