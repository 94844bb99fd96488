import StackCert.Expression
import StackCert.Proofs.Advance

/-!
# The evaluation that answers a request

A request is turned away, or it opens an evaluation (`Settings.opening?`): the entry
source is started on an empty stack of the certified height. What is returned then is
known from the run of that evaluation over an executor (`evaluateWithLimit_of_run`).
-/

namespace StackCert

/-- What an evaluation that came to its end returns. -/
def Exit.result (exit : Exit) (evaluation : Evaluation) : Except Failure (List Word) :=
  match exit with
  | .stopped => .ok evaluation.machine.stack.toList
  | .failed failure => .error failure

theorem Exit.result_eq_error_iff {exit : Exit} {evaluation : Evaluation} {failure : Failure} :
    exit.result evaluation = .error failure ↔ exit = .failed failure := by
  cases exit <;> simp [result]

theorem Exit.result_eq_ok_iff {exit : Exit} {evaluation : Evaluation} {values : List Word} :
    exit.result evaluation = .ok values ↔
      exit = .stopped ∧ evaluation.machine.stack.toList = values := by
  cases exit <;> simp [result]

namespace Settings

variable {σ : Type} [Store σ] {settings : Settings} {expression : Expression} {request : Request}
  {stepLimit : UInt64} {store : σ} {journal : Journal} {evaluation : Evaluation}

/-- The evaluation that a request is answered with, unless it is turned away. -/
def opening? (settings : Settings) (expression : Expression) (request : Request) :
    Option Evaluation :=
  match expression.outputs[request.source]?, expression.heights[request.source]? with
  | some outputs, some height =>
      if expression.bounds.satisfiedBy request.context then
        some (.start (.start expression.program request.context request.source outputs height
          settings.layout) request.space)
      else none
  | _, _ => none

theorem opening?_eq_some_iff :
    settings.opening? expression request = some evaluation ↔
      ∃ outputs height, expression.outputs[request.source]? = some outputs ∧
        expression.heights[request.source]? = some height ∧
        expression.bounds.satisfiedBy request.context = true ∧
        evaluation = .start (.start expression.program request.context request.source outputs height
          settings.layout) request.space := by
  cases outputFound : expression.outputs[request.source]? with
  | none => simp [opening?, outputFound]
  | some outputs =>
      cases heightFound : expression.heights[request.source]? with
      | none => simp [opening?, outputFound, heightFound]
      | some height =>
          simp only [opening?, outputFound, heightFound, Option.ite_none_right_eq_some,
            Option.some.injEq, exists_and_left, exists_eq_left']
          rw [eq_comm (a := evaluation)]

theorem running_of_opening? (opened : settings.opening? expression request = some evaluation) :
    evaluation.Running := by
  rcases opening?_eq_some_iff.mp opened with ⟨outputs, height, _, _, _, rfl⟩
  exact Evaluation.running_start ..

/-- A request that is turned away leaves the executor as it was. -/
theorem evaluateWithLimit_of_turnedAway (turnedAway : settings.opening? expression request = none) :
    settings.evaluateWithLimit expression request stepLimit store journal =
      (.error .operandOutOfBounds, Executor.start store stepLimit journal) := by
  cases outputFound : expression.outputs[request.source]? with
  | none => simp [evaluateWithLimit, outputFound]
  | some outputs =>
      cases heightFound : expression.heights[request.source]? with
      | none => simp [evaluateWithLimit, outputFound, heightFound]
      | some height =>
          have unsatisfied : expression.bounds.satisfiedBy request.context = false := by
            simpa [opening?, outputFound, heightFound] using turnedAway
          simp [evaluateWithLimit, outputFound, heightFound, unsatisfied]

/-- An evaluation is the run of its opening with a log line behind it. -/
theorem evaluateWithLimit_eq_of_run {exit : Exit} {after : Evaluation} {executor : Executor σ}
    (opened : settings.opening? expression request = some evaluation)
    (ran : evaluation.run Executor.host (Executor.start store stepLimit journal) =
      (exit, after, executor)) :
    settings.evaluateWithLimit expression request stepLimit store journal =
      (exit.result after,
        executor.log .debug fun _ => Executor.epilogue after.space executor.meter exit) := by
  rcases opening?_eq_some_iff.mp opened with
    ⟨outputs, height, outputFound, heightFound, satisfied, rfl⟩
  simp only [evaluateWithLimit, outputFound, heightFound, satisfied, ↓reduceIte, evaluateEntry,
    Executor.execute, ran]
  cases exit <;> rfl

theorem evaluateWithLimit_of_run {exit : Exit} {after : Evaluation} {executor : Executor σ}
    (opened : settings.opening? expression request = some evaluation)
    (ran : evaluation.run Executor.host (Executor.start store stepLimit journal) =
      (exit, after, executor)) :
    let evaluated := settings.evaluateWithLimit expression request stepLimit store journal
    evaluated.1 = exit.result after ∧ evaluated.2.store = executor.store ∧
      evaluated.2.meter = executor.meter := by
  rw [evaluateWithLimit_eq_of_run opened ran]
  exact ⟨rfl, rfl, rfl⟩

/-- An evaluation whose run is known to end within some steps. -/
theorem evaluateWithLimit_of_runFor {result : Except Failure (List Word)} {left : σ} (steps : Nat)
    (opened : settings.opening? expression request = some evaluation)
    (ran : (evaluation.runFor Executor.host steps (.start store stepLimit journal)).map
      (fun ended => (ended.1.result ended.2.1, ended.2.2.store)) = some (result, left)) :
    let evaluated := settings.evaluateWithLimit expression request stepLimit store journal
    evaluated.1 = result ∧ evaluated.2.store = left := by
  rcases Option.map_eq_some_iff.mp ran with ⟨⟨exit, after, executor⟩, found, shown⟩
  cases shown
  rcases evaluateWithLimit_of_run opened (Evaluation.run_of_runFor found) with ⟨returned, kept, _⟩
  exact ⟨returned, kept⟩

end Settings

end StackCert
