import StackCert.Evaluation
import StackCert.Meter
import StackCert.Store

/-!
# Executors

The executor is the host that evaluations usually have: it keeps the store,
counts every instruction with a meter, and writes what it is asked to show, and
every instruction it admits, into the journal.
-/

namespace StackCert

/-- A store under a meter. -/
structure Executor (σ : Type) where
  store : σ
  meter : Meter
  journal : Journal := {}

namespace Executor

variable {σ : Type}

/-- The executor that has run nothing. -/
def start (store : σ) (stepLimit : UInt64) (journal : Journal := {}) : Executor σ :=
  ⟨store, .ofLimit stepLimit, journal⟩

/-- The log line of an instruction that is about to be counted. -/
def admission (meter : Meter) (instruction : Instruction) (height : Nat) : String :=
  "Running opcode: " ++ instruction.opcode.form ++
    ", operand: " ++ toString instruction.operand.toNat ++
    ", stack height: " ++ toString height ++
    ", steps left: " ++ toString meter.remaining.toNat

/-- Words in decimal between brackets. -/
def wordList (words : List Word) : String := Text.bracketed (words.map Word.decimal)

/-- The part of a machine that a style asks for. -/
def excerpt? (style : DebugStyle) (machine : Machine) : Option String :=
  match style with
  | .stack =>
      let base := match machine.frame? with
        | some frame => frame.base
        | none => 0
      some ("Stack: " ++ wordList (machine.stack.toList.drop base))
  | .constants => some ("Constants: " ++ wordList machine.program.constants.toList)
  | .context => some ("Context: " ++ Text.bracketed (machine.context.columns.map wordList))
  | .source =>
      machine.frame?.map fun frame =>
        "Source " ++ toString frame.source ++ " at position " ++ toString frame.position ++
          ", frame base " ++ toString frame.base

/-- The log line of an evaluation that has ended. -/
def epilogue (space : Word) (meter : Meter) (exit : Exit) : String :=
  "Evaluation in namespace " ++ space.decimal ++ " exited after " ++
    toString meter.used.toNat ++ " steps: " ++ exit.form

/-- The executor with another log line. -/
def log (executor : Executor σ) (level : Level) (text : Unit → String) : Executor σ :=
  { executor with journal := executor.journal.log level text }

/-- Counts an instruction, with a log line on what is left before it. -/
def count (executor : Executor σ) (instruction : Instruction) (height : Nat) :
    Except Failure Unit × Executor σ :=
  let executor := executor.log .trace fun _ => admission executor.meter instruction height
  match executor.meter.recordStep instruction with
  | (result, meter) => (result, { executor with meter })

/-- Logs the part of a machine that a style asks for. -/
def exhibit (executor : Executor σ) (style : DebugStyle) (machine : Machine) : Executor σ :=
  match style, machine.frame? with
  | .source, none => executor
  | style, _ => executor.log .debug fun _ => (excerpt? style machine).getD ""

/-- The host that works on the store, counts every instruction and keeps the journal. -/
def host [Store σ] : Host (Executor σ) where
  get executor space key := (.ok (Store.get executor.store ⟨space, key⟩), executor)
  set executor space key value :=
    match Store.set executor.store ⟨space, key⟩ value with
    | (result, store) => (result, { executor with store })
  permit executor instruction stack := executor.count instruction stack.size
  debug executor style machine := (.ok (), executor.exhibit style machine)
  observe executor event := { executor with journal := executor.journal.note event }

/-- Runs an evaluation to its end, with a log line on how it ended. -/
def execute [Store σ] (executor : Executor σ) (evaluation : Evaluation) :
    Exit × Evaluation × Executor σ :=
  match evaluation.run host executor with
  | (exit, evaluation, executor) =>
      (exit, evaluation,
        executor.log .debug fun _ => epilogue evaluation.space executor.meter exit)

end Executor

end StackCert
