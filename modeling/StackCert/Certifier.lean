import StackCert.Context
import StackCert.Program

/-!
# Certification

Before a program may be evaluated, every entry point is walked once. The walk
keeps the height the stack will have after each instruction and the highest
height reached so far, and it rejects a program at the first instruction whose
operand, effect or height is not in order. A call goes to a later source only,
so the callee can be summarized first; its summary depends only on how many
inputs it is given. Summaries are kept, since a source may be called often.
-/

namespace StackCert

/-- What a program is certified against. -/
structure Terms where
  /-- The context cells that may be read. -/
  bounds : Bounds := {}
  /-- The height no entry point may exceed, if there is one. -/
  stackLimit : Option Nat := none
deriving DecidableEq, Repr

namespace Terms

/-- Whether a height exceeds the limit. -/
def exceededBy (terms : Terms) (height : Nat) : Bool :=
  match terms.stackLimit with
  | none => false
  | some limit => limit < height

end Terms

/-- The heights found by walking a source with a given number of inputs. -/
structure Summary where
  /-- The height reached last, inputs included. -/
  height : Nat
  /-- The highest height reached, calls included. -/
  peak : Nat
deriving DecidableEq, Repr

namespace Summary

/-- The summary after an instruction with the given effect. -/
def apply (summary : Summary) (effect : Effect) : Summary :=
  let height := summary.height - effect.pops + effect.pushes
  ⟨height, max summary.peak height⟩

/-- The summary with the peak of a callee on top of what its caller keeps. -/
def around (summary : Summary) (inputs : Nat) (callee : Summary) : Summary :=
  { summary with peak := max summary.peak (summary.height - inputs + callee.peak) }

end Summary

namespace Program

/-- Whether an operand names something that exists, for operations that read a value. -/
def admitsOperand (program : Program) (bounds : Bounds) (height : Nat) (operation : Operation)
    (operand : UInt8) : Bool :=
  match operation with
  | .constant => operand.toNat < program.constants.size
  | .stack => operand.toNat < height
  | .context =>
      let cell := CellOperand.ofByte operand
      bounds.contains cell.column cell.row
  | _ => true

/--
Summaries of the sources behind a given one. What is known of them may change
with each request, hence the state that goes in and comes out.
-/
abbrev Callees (program : Program) (source : Nat) (State : Type) :=
  (callee inputs : Nat) → source < callee → callee < program.sources.size →
    State → Except Rejection Summary × State

/-- The summary after an instruction that makes a call. -/
def walkCall {State : Type} (program : Program) (source position : Nat)
    (callees : program.Callees source State) (call : CallOperand) (summary : Summary)
    (state : State) : Except Rejection Summary × State :=
  if order : source < call.source ∧ call.source < program.sources.size then
    match callees call.source call.inputs order.1 order.2 state with
    | (.error rejection, state) => (.error rejection, state)
    | (.ok callee, state) =>
        if callee.height = call.outputs then (.ok (summary.around call.inputs callee), state)
        else (.error ⟨source, position, .stackMismatch call.outputs callee.height⟩, state)
  else (.error ⟨source, position, .operandOutOfBounds⟩, state)

/-- The summary after an instruction, before the limit is looked at. -/
def walkOperation {State : Type} (program : Program) (bounds : Bounds) (source position : Nat)
    (callees : program.Callees source State) (operation : Operation) (operand : UInt8)
    (summary : Summary) (state : State) : Except Rejection Summary × State :=
  match operation with
  | .call =>
      walkCall program source position callees (CallOperand.ofByte operand) summary state
  | operation =>
      if program.admitsOperand bounds summary.height operation operand then (.ok summary, state)
      else (.error ⟨source, position, .operandOutOfBounds⟩, state)

/-- The summary after an instruction at a position of a source. -/
def walkInstruction {State : Type} (program : Program) (terms : Terms) (source position : Nat)
    (callees : program.Callees source State) (instruction : Instruction) (summary : Summary)
    (state : State) : Except Rejection Summary × State :=
  match instruction.operation with
  | .error failure => (.error ⟨source, position, failure⟩, state)
  | .ok operation =>
      match operation.effect instruction.operand with
      | .error failure => (.error ⟨source, position, failure⟩, state)
      | .ok effect =>
          if summary.height < effect.pops then
            (.error ⟨source, position, .stackUnderflow⟩, state)
          else
            match walkOperation program terms.bounds source position callees operation
              instruction.operand summary state with
            | (.error rejection, state) => (.error rejection, state)
            | (.ok summary, state) =>
                let after := summary.apply effect
                if terms.exceededBy after.peak then
                  (.error ⟨source, position, .stackOverflow⟩, state)
                else (.ok after, state)

/-- The summary after the instructions from a position of a source on. -/
def walk {State : Type} (program : Program) (terms : Terms) (source : Nat)
    (callees : program.Callees source State) :
    Nat → List Instruction → Summary → State → Except Rejection Summary × State
  | _, [], summary, state => (.ok summary, state)
  | position, instruction :: instructions, summary, state =>
      match walkInstruction program terms source position callees instruction summary state with
      | (.error rejection, state) => (.error rejection, state)
      | (.ok summary, state) =>
          walk program terms source callees (position + Instruction.width) instructions summary state

/-- The summaries found so far, by source and number of inputs. -/
abbrev Summaries := List ((Nat × Nat) × Summary)

/-- The summary of a source, from those already known or by walking the source. -/
def summarize (program : Program) (terms : Terms) (source inputs : Nat) (known : Summaries) :
    Except Rejection Summary × Summaries :=
  match known.lookup (source, inputs) with
  | some summary => (.ok summary, known)
  | none =>
      match program.sources[source]? with
      | none => (.error ⟨source, 0, .operandOutOfBounds⟩, known)
      | some code =>
          if code.aligned then
            match walk program terms source
              (fun callee inputs _ _ known => program.summarize terms callee inputs known)
              0 (Instruction.listOfBytes code.toList) ⟨inputs, inputs⟩ known with
            | (.error rejection, known) => (.error rejection, known)
            | (.ok summary, known) => (.ok summary, ((source, inputs), summary) :: known)
          else (.error ⟨source, code.size - 1, .malformedEncoding⟩, known)
termination_by program.sources.size - source

/-- The peaks of the sources from an index on, each to end with an expected number of values. -/
def checkEntries (program : Program) (terms : Terms) :
    Nat → List Nat → Summaries → Except Rejection (List Nat) × Summaries
  | _, [], known => (.ok [], known)
  | source, expected :: outputs, known =>
      match program.summarize terms source 0 known with
      | (.error rejection, known) => (.error rejection, known)
      | (.ok summary, known) =>
          if summary.height = expected then
            match program.checkEntries terms (source + 1) outputs known with
            | (.error rejection, known) => (.error rejection, known)
            | (.ok heights, known) => (.ok (summary.peak :: heights), known)
          else
            (.error ⟨source, program.sourceSize source, .stackMismatch expected summary.height⟩,
              known)

end Program

/-- A program under certification, with the summaries found so far. -/
structure Certifier where
  program : Program
  terms : Terms := {}
  summaries : Program.Summaries := []
deriving DecidableEq, Repr

namespace Certifier

/-- Sets the height no entry point may exceed. -/
def withStackLimit (certifier : Certifier) (limit : Nat) : Certifier :=
  { certifier with terms := { certifier.terms with stackLimit := some limit } }

/--
Checks that the leading sources end with the expected numbers of values and
returns the highest height that each of them reaches.
-/
def check (certifier : Certifier) (outputs : List Nat) :
    Except Rejection (List Nat) × Certifier :=
  if certifier.program.sources.size < outputs.length then
    (.error ⟨certifier.program.sources.size, 0, .operandOutOfBounds⟩, certifier)
  else
    match certifier.program.checkEntries certifier.terms 0 outputs certifier.summaries with
    | (result, summaries) => (result, { certifier with summaries })

end Certifier

namespace Program

/-- Certifies a program against bounds and without a limit on heights. -/
def check (program : Program) (bounds : Bounds) (outputs : List Nat) :
    Except Rejection (List Nat) :=
  (Certifier.check ⟨program, { bounds }, []⟩ outputs).1

end Program

end StackCert
