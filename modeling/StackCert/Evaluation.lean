import StackCert.Host
import StackCert.Machine.Run

/-!
# Evaluations

An evaluation drives a machine on behalf of an owner, with a host that resolves
the instructions the machine traps on. Each step asks the host to permit the next
instruction, lets the machine take it, and resolves it if need be. The first exit
is kept and answers every later step.
-/

namespace StackCert

/-- A machine driven for an owner. -/
structure Evaluation where
  machine : Machine
  /-- The space of the owner, in which keys are read and written. -/
  space : Word
  /-- How the evaluation ended, if it has. -/
  status : Option Exit
deriving DecidableEq, Repr

namespace Evaluation

variable {σ : Type}

/-- The evaluation of a machine that has not been driven yet. -/
def start (machine : Machine) (space : Word) : Evaluation := ⟨machine, space, none⟩

/-- The evaluation with another stack in its machine. -/
def withStack (evaluation : Evaluation) (stack : Stack) : Evaluation :=
  { evaluation with machine := { evaluation.machine with stack } }

/-- The evaluation and its machine ended. -/
def exit (evaluation : Evaluation) (exit : Exit) : Evaluation :=
  { evaluation with machine := evaluation.machine.exit exit, status := some exit }

/-- Announces the next instruction, if there is one, and asks the host to permit it. -/
def permit (host : Host σ) (evaluation : Evaluation) (state : σ) : Evaluation × σ :=
  match evaluation.machine.inspect? with
  | none => (evaluation, state)
  | some instruction =>
      match host.permit
        (host.observe state (.step evaluation.space instruction evaluation.machine.stack))
        instruction evaluation.machine.stack with
      | (.ok (), state) => (evaluation, state)
      | (.error failure, state) => (evaluation.exit (.failed failure), state)

/-- Reads the key on top of the stack and puts its value in its place. -/
def resolveGet (host : Host σ) (evaluation : Evaluation) (state : σ) :
    Except Failure Unit × Evaluation × σ :=
  match evaluation.machine.stack.pop with
  | .error failure => (.error failure, evaluation, state)
  | .ok (key, below) =>
      match host.get state evaluation.space key with
      | (.error failure, state) => (.error failure, evaluation.withStack below, state)
      | (.ok value, state) =>
          match below.push value with
          | .error failure => (.error failure, evaluation.withStack below, state)
          | .ok after =>
              (.ok (), evaluation.withStack after,
                host.observe state (.get evaluation.space key value))

/-- Writes the value on top of the stack at the key below it. -/
def resolveSet (host : Host σ) (evaluation : Evaluation) (state : σ) :
    Except Failure Unit × Evaluation × σ :=
  match evaluation.machine.stack.pop with
  | .error failure => (.error failure, evaluation, state)
  | .ok (value, keyed) =>
      match keyed.pop with
      | .error failure => (.error failure, evaluation.withStack keyed, state)
      | .ok (key, below) =>
          match host.set state evaluation.space key value with
          | (.error failure, state) => (.error failure, evaluation.withStack below, state)
          | (.ok (), state) =>
              (.ok (), evaluation.withStack below,
                host.observe state (.set evaluation.space key value))

/-- Has the host show the part of the machine named by an operand. -/
def resolveDebug (host : Host σ) (evaluation : Evaluation) (operand : UInt8) (state : σ) :
    Except Failure Unit × Evaluation × σ :=
  match DebugStyle.ofNat? operand.toNat with
  | none => (.error .operandOutOfBounds, evaluation, state)
  | some style =>
      match host.debug state style evaluation.machine with
      | (result, state) => (result, evaluation, state)

/-- Resolves an instruction that the machine trapped on. -/
def resolve (host : Host σ) (evaluation : Evaluation) (instruction : Instruction) (state : σ) :
    Except Failure Unit × Evaluation × σ :=
  match instruction.opcode.operation? with
  | some .get => evaluation.resolveGet host state
  | some .set => evaluation.resolveSet host state
  | some .debug => evaluation.resolveDebug host instruction.operand state
  | _ => (.error (.unknownOpcode instruction.opcode), evaluation, state)

/-- Lets the machine step and resolves what it traps on. -/
def proceed (host : Host σ) (evaluation : Evaluation) (state : σ) :
    Option Exit × Evaluation × σ :=
  match evaluation.machine.step with
  | (.continued, machine) => (none, { evaluation with machine }, state)
  | (.exited exit, machine) => (some exit, { evaluation with machine, status := some exit }, state)
  | (.trapped instruction, machine) =>
      match { evaluation with machine }.resolve host instruction state with
      | (.ok (), evaluation, state) => (none, evaluation, state)
      | (.error failure, evaluation, state) =>
          (some (.failed failure), evaluation.exit (.failed failure), state)

/-- One step of an evaluation; it returns the exit if there is one. -/
def step (host : Host σ) (evaluation : Evaluation) (state : σ) : Option Exit × Evaluation × σ :=
  match evaluation.permit host state with
  | (evaluation, state) =>
      match evaluation.status with
      | some exit => (some exit, evaluation, state)
      | none => evaluation.proceed host state

/-- Resolving an instruction changes the machine's stack at most. -/
theorem remaining_resolve (host : Host σ) (evaluation : Evaluation) (instruction : Instruction)
    (state : σ) :
    (evaluation.resolve host instruction state).2.1.machine.remaining =
      evaluation.machine.remaining := by
  unfold resolve
  split
  · unfold resolveGet
    repeat' split
    all_goals rfl
  · unfold resolveSet
    repeat' split
    all_goals rfl
  · unfold resolveDebug
    repeat' split
    all_goals rfl
  · rfl

/-- The host leaves an evaluation as it was or ends it. -/
theorem permit_cases {host : Host σ} {evaluation after : Evaluation} {state state' : σ}
    (admitted : evaluation.permit host state = (after, state')) :
    after = evaluation ∨ ∃ failure, after = evaluation.exit (.failed failure) := by
  unfold permit at admitted
  split at admitted
  · cases admitted
    exact Or.inl rfl
  · split at admitted
    · cases admitted
      exact Or.inl rfl
    · cases admitted
      exact Or.inr ⟨_, rfl⟩

theorem eq_of_permit {host : Host σ} {evaluation after : Evaluation} {state state' : σ}
    (admitted : evaluation.permit host state = (after, state')) (goesOn : after.status = none) :
    after = evaluation := by
  rcases permit_cases admitted with rfl | ⟨failure, rfl⟩
  · rfl
  · simp [exit] at goesOn

/-- Every step that does not end the evaluation lowers the bound on the machine's steps. -/
theorem remaining_step_lt {host : Host σ} {evaluation after : Evaluation} {state state' : σ}
    (stepped : evaluation.step host state = (none, after, state')) :
    after.machine.remaining < evaluation.machine.remaining := by
  unfold step at stepped
  split at stepped
  rename_i admitted state admission
  split at stepped
  · simp at stepped
  · rename_i goesOn
    cases eq_of_permit admission goesOn
    unfold proceed at stepped
    split at stepped
    · rename_i machine machineStepped
      cases stepped
      exact Machine.remaining_step_lt machineStepped (by simp)
    · simp at stepped
    · rename_i instruction machine machineStepped
      have lowered := Machine.remaining_step_lt machineStepped (by simp)
      have kept :=
        remaining_resolve host { evaluation with machine } instruction state
      split at stepped
      · rename_i resolved
        cases stepped
        rw [resolved] at kept
        simp only at kept
        omega
      · simp at stepped

theorem remaining_step_lt_of_none {host : Host σ} {evaluation : Evaluation} {state : σ}
    (goesOn : (evaluation.step host state).1 = none) :
    (evaluation.step host state).2.1.machine.remaining < evaluation.machine.remaining := by
  cases stepped : evaluation.step host state with
  | mk exit? rest =>
      rw [stepped] at goesOn
      cases goesOn
      exact remaining_step_lt stepped

/-- Steps until the evaluation ends. -/
def run (host : Host σ) (evaluation : Evaluation) (state : σ) : Exit × Evaluation × σ :=
  let stepped := evaluation.step host state
  match _ : stepped.1 with
  | some exit => (exit, stepped.2)
  | none => stepped.2.1.run host stepped.2.2
termination_by evaluation.machine.remaining
decreasing_by exact remaining_step_lt_of_none (by assumption)

theorem run_of_some {host : Host σ} {evaluation : Evaluation} {state : σ} {exit : Exit}
    (ended : (evaluation.step host state).1 = some exit) :
    evaluation.run host state = (exit, (evaluation.step host state).2) := by
  rw [run]
  split
  · simp_all
  · simp_all

theorem run_of_none {host : Host σ} {evaluation : Evaluation} {state : σ}
    (goesOn : (evaluation.step host state).1 = none) :
    evaluation.run host state =
      (evaluation.step host state).2.1.run host (evaluation.step host state).2.2 := by
  rw [run]
  split
  · simp_all
  · rfl

end Evaluation

end StackCert
