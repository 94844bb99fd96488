import StackCert.Context
import StackCert.Program
import StackCert.Reducer
import StackCert.Stack

/-!
# The machine

A machine runs a source of a program over a context. It keeps a frame for every
source that is being run and one stack for all of them; a frame's own values
start at its base. The instructions that need a host are not run: the machine
traps on them, with its position already behind the instruction, and the host
resolves them on the stack before the machine goes on.

Certification makes most failures impossible. The machine tests for them all the
same, so that no frame ever takes values of its caller and programs that were
never certified can be run as well.
-/

namespace StackCert

/-- A source that is being run. -/
structure Frame where
  source : Nat
  /-- The byte position of the next instruction. -/
  position : Nat
  /-- The height of the stack at which the values of this frame start. -/
  base : Nat
  /-- How many values there have to be above the base when the source ends. -/
  outputs : Nat
deriving DecidableEq, Repr

/-- The constant with the given index, which has to exist. -/
def Program.constant (program : Program) (index : Nat) : Except Failure Word :=
  match program.constants[index]? with
  | some word => .ok word
  | none => .error .operandOutOfBounds

/-- The cell named by an operand, which has to exist. -/
def Context.cell (context : Context) (cell : CellOperand) : Except Failure Word :=
  match context.get? cell.column cell.row with
  | some word => .ok word
  | none => .error .operandOutOfBounds

namespace Frame

/-- The frame behind its next instruction. -/
def advance (frame : Frame) : Frame :=
  { frame with position := frame.position + Instruction.width }

end Frame

/-- What running one operation asks for. -/
inductive Control where
  /-- Go on behind the instruction with the given stack. -/
  | next (stack : Stack)
  /-- Go on in the given frame and return behind the instruction. -/
  | call (callee : Frame)
  /-- Let the host resolve the instruction. -/
  | trap
  /-- End the run with the given stack. -/
  | halt (stack : Stack) (failure : Failure)
deriving DecidableEq, Repr

/-- What became of a step. -/
inductive Outcome where
  | continued
  | exited (exit : Exit)
  | trapped (instruction : Instruction)
deriving DecidableEq, Repr

/-- A run of a program. -/
structure Machine where
  program : Program
  context : Context
  layout : Layout
  /-- The sources being run, the innermost first. -/
  frames : List Frame
  stack : Stack
  /-- How the run ended, if it has. -/
  status : Option Exit
deriving DecidableEq, Repr

namespace Machine

/-- The machine about to run a source, which has to end with the given number of values. -/
def start (program : Program) (context : Context) (source outputs stackLimit : Nat)
    (layout : Layout) : Machine where
  program := program
  context := context
  layout := layout
  frames := [⟨source, 0, 0, outputs⟩]
  stack := .empty stackLimit
  status := none

/-- The innermost frame, unless the entry source has ended. -/
def frame? (machine : Machine) : Option Frame := machine.frames.head?

/-- The machine ended with the given exit. -/
def exit (machine : Machine) (exit : Exit) : Machine := { machine with status := some exit }

/-- The instruction that a step would run, if the machine has not ended. -/
def inspect? (machine : Machine) : Option Instruction :=
  match machine.status, machine.frames with
  | none, frame :: _ =>
      match machine.program.sources[frame.source]? with
      | some code => code.instruction? frame.position
      | none => none
  | _, _ => none

/-- Goes on with a value on top, or ends if there is no value or no room for it. -/
def pushing (stack : Stack) (value : Except Failure Word) : Control :=
  match value with
  | .error failure => .halt stack failure
  | .ok word =>
      match stack.push word with
      | .error failure => .halt stack failure
      | .ok after => .next after

/-- Runs a call: the callee has to be a later source and its inputs have to be there. -/
def enter (machine : Machine) (frame : Frame) (call : CallOperand) : Control :=
  if frame.source < call.source ∧ call.source < machine.program.sources.size then
    if call.inputs ≤ machine.stack.size then
      .call ⟨call.source, 0, machine.stack.size - call.inputs, call.outputs⟩
    else .halt machine.stack .stackUnderflow
  else .halt machine.stack .operandOutOfBounds

/-- Takes a condition from the stack and ends with its code if it does not hold. -/
def require (stack : Stack) (code : UInt8) : Control :=
  match stack.pop with
  | .error failure => .halt stack failure
  | .ok (condition, below) =>
      if condition = 0 then .halt below (.ensureFailed code) else .next below

/-- Replaces the values of a reducer by its result. -/
def reducing (layout : Layout) (stack : Stack) (reducer : Reducer) (operand : UInt8) : Control :=
  let result := do
    let arity ← reducer.arity operand
    stack.reduce arity (reducer.combine layout operand)
  match result with
  | .error failure => .halt stack failure
  | .ok after => .next after

/-- Runs an operation in a frame. -/
def perform (machine : Machine) (frame : Frame) (operation : Operation) (operand : UInt8) :
    Control :=
  match operation with
  | .constant => pushing machine.stack (machine.program.constant operand.toNat)
  | .stack => pushing machine.stack (machine.stack.get (frame.base + operand.toNat))
  | .context => pushing machine.stack (machine.context.cell (CellOperand.ofByte operand))
  | .call => machine.enter frame (CallOperand.ofByte operand)
  | .debug | .get | .set => .trap
  | .ensure => require machine.stack operand
  | .reduce reducer => reducing machine.layout machine.stack reducer operand

/-- Ends the run. -/
def finish (machine : Machine) (exit : Exit) : Outcome × Machine :=
  (.exited exit, machine.exit exit)

/-- Ends the innermost frame, whose values have to be as many as declared. -/
def leave (machine : Machine) (frame : Frame) (callers : List Frame) : Outcome × Machine :=
  if machine.stack.size - frame.base = frame.outputs then
    match callers with
    | [] => { machine with frames := [] }.finish .stopped
    | _ :: _ => (.continued, { machine with frames := callers })
  else
    machine.finish
      (.failed (.stackMismatch frame.outputs (machine.stack.size - frame.base)))

/-- Does what running an operation asked for. -/
def follow (machine : Machine) (frame : Frame) (callers : List Frame) (instruction : Instruction)
    (control : Control) : Outcome × Machine :=
  match control with
  | .next stack => (.continued, { machine with frames := frame.advance :: callers, stack })
  | .call callee => (.continued, { machine with frames := callee :: frame.advance :: callers })
  | .trap => (.trapped instruction, { machine with frames := frame.advance :: callers })
  | .halt stack failure => { machine with stack }.finish (.failed failure)

/-- Runs an instruction in the innermost frame. -/
def execute (machine : Machine) (frame : Frame) (callers : List Frame)
    (instruction : Instruction) : Outcome × Machine :=
  match instruction.operation with
  | .error failure => machine.finish (.failed failure)
  | .ok operation =>
      match operation.effect instruction.operand with
      | .error failure => machine.finish (.failed failure)
      | .ok effect =>
          if machine.stack.size - frame.base < effect.pops then
            machine.finish (.failed .stackUnderflow)
          else
            machine.follow frame callers instruction
              (machine.perform frame operation instruction.operand)

/-- Runs the next instruction, or ends the innermost frame if its source is at its end. -/
def step (machine : Machine) : Outcome × Machine :=
  match machine.status with
  | some exit => (.exited exit, machine)
  | none =>
      match machine.frames with
      | [] => machine.finish .stopped
      | frame :: callers =>
          match machine.program.sources[frame.source]? with
          | none => machine.finish (.failed .operandOutOfBounds)
          | some code =>
              match code.instruction? frame.position with
              | some instruction => machine.execute frame callers instruction
              | none =>
                  if frame.position = code.size then machine.leave frame callers
                  else machine.finish (.failed .malformedEncoding)

end Machine

end StackCert
