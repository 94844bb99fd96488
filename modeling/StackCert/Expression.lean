import StackCert.Certifier
import StackCert.Codec
import StackCert.Executor

/-!
# Expressions

An expression is a program that passed certification, with what it was certified
for. It is deployed once and can then be evaluated any number of times, each
time over a context that has the cells the program was certified to read, and
with a stack of exactly the certified height.
-/

namespace StackCert

/-- A certified program. -/
structure Expression where
  program : Program
  bounds : Bounds
  /-- How many values each entry point ends with. -/
  outputs : List Nat
  /-- The highest stack of each entry point. -/
  heights : List Nat
deriving DecidableEq, Repr

namespace Expression

/-- How many of the leading sources can be evaluated. -/
def entryPoints (expression : Expression) : Nat := expression.outputs.length

/-- The binary form of the program. -/
def encode (expression : Expression) : List UInt8 := Codec.encode expression.program

end Expression

/-- How programs are certified and evaluated. -/
structure Settings where
  /-- The highest stack that a program may be certified with. -/
  stackLimit : Nat
  /-- How many instructions an evaluation may run unless told otherwise. -/
  stepLimit : UInt64
  /-- The layout of tier reports. -/
  layout : Layout
deriving DecidableEq, Repr

/-- What is evaluated and for whom. -/
structure Request where
  /-- The entry point. -/
  source : Nat := 0
  context : Context := {}
  /-- The space in which keys are read and written. -/
  space : Word := 0
deriving DecidableEq, Repr

namespace Settings

/-- Stacks of 1024 words, a million instructions, and the standard layout. -/
def standard : Settings := ⟨1024, 1000000, .standard⟩

/-- Certifies a program whose leading sources have to end with the given numbers of values. -/
def deploy (settings : Settings) (program : Program) (bounds : Bounds) (outputs : List Nat) :
    Except Rejection Expression :=
  match (Certifier.check ⟨program, ⟨bounds, some settings.stackLimit⟩, []⟩ outputs).1 with
  | .error rejection => .error rejection
  | .ok heights => .ok ⟨program, bounds, outputs, heights⟩

theorem deploy_eq_ok_iff {settings : Settings} {program : Program} {bounds : Bounds}
    {outputs : List Nat} {expression : Expression} :
    settings.deploy program bounds outputs = .ok expression ↔
      ∃ heights, (Certifier.check ⟨program, ⟨bounds, some settings.stackLimit⟩, []⟩ outputs).1 =
        .ok heights ∧ expression = ⟨program, bounds, outputs, heights⟩ := by
  unfold deploy
  split
  · rename_i rejected
    simp [rejected]
  · rename_i heights accepted
    simp only [accepted, Except.ok.injEq, exists_eq_left']
    exact eq_comm

/-- The journal with the log line and the event of a deployment. -/
def noteDeployment (journal : Journal) (result : Except Rejection Expression) : Journal :=
  match result with
  | .error rejection => journal.log .debug fun _ => "Rejected program: " ++ rejection.message
  | .ok expression =>
      let journal := journal.log .debug fun _ =>
        "Deployed program with " ++ toString expression.program.sources.size ++
          " sources and " ++ toString expression.program.constants.size ++
          " constants, max stack heights: " ++
          Text.bracketed (expression.heights.map toString)
      journal.note
        (.deploy expression.program expression.bounds expression.outputs expression.heights)

variable {σ : Type} [Store σ]

/-- Evaluates an entry point on a machine whose stack has the given height. -/
def evaluateEntry (settings : Settings) (expression : Expression) (request : Request)
    (outputs height : Nat) (executor : Executor σ) : Except Failure (List Word) × Executor σ :=
  let machine := Machine.start expression.program request.context request.source outputs height
    settings.layout
  match executor.execute (.start machine request.space) with
  | (.stopped, evaluation, executor) => (.ok evaluation.machine.stack.toList, executor)
  | (.failed failure, _, executor) => (.error failure, executor)

/--
Evaluates an entry point with the given number of steps and returns its values,
the last pushed one last. What was written before a failure stays written.
-/
def evaluateWithLimit (settings : Settings) (expression : Expression) (request : Request)
    (stepLimit : UInt64) (store : σ) (journal : Journal := {}) :
    Except Failure (List Word) × Executor σ :=
  let executor := Executor.start store stepLimit journal
  match expression.outputs[request.source]?, expression.heights[request.source]? with
  | some outputs, some height =>
      if expression.bounds.satisfiedBy request.context then
        settings.evaluateEntry expression request outputs height executor
      else (.error .operandOutOfBounds, executor)
  | _, _ => (.error .operandOutOfBounds, executor)

/-- Evaluates an entry point with the number of steps of the settings. -/
def evaluate (settings : Settings) (expression : Expression) (request : Request) (store : σ)
    (journal : Journal := {}) : Except Failure (List Word) × Executor σ :=
  settings.evaluateWithLimit expression request settings.stepLimit store journal

/-- Evaluates an entry point and returns the value it pushed last. -/
def evaluateTop (settings : Settings) (expression : Expression) (request : Request) (store : σ)
    (journal : Journal := {}) : Except Failure Word × Executor σ :=
  match settings.evaluate expression request store journal with
  | (.error failure, executor) => (.error failure, executor)
  | (.ok words, executor) =>
      match words.getLast? with
      | some word => (.ok word, executor)
      | none => (.error .stackUnderflow, executor)

end Settings

end StackCert
