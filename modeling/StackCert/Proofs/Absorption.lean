import StackCert.Executor
import StackCert.Proofs.Consultation
import StackCert.Proofs.Turn

/-!
# Exits are final

An evaluation is driven by calls: to take a step, or to run to the end. Nobody
keeps a caller from going on after an exit, and each call may come with another
host. The exit is noted twice, by the evaluation and by its machine, and a call
that found it in one place only would ask the host again or run an instruction
after the end. `Evaluation.Stands` says that both notes agree with what the last
call has returned. Every call keeps this, and an evaluation that stands at an exit
returns it to every later call, without a word to the host.
-/

namespace StackCert

variable {σ : Type}

/-- A call on an evaluation, over a host of its own. -/
inductive Drive (σ : Type) where
  | step (host : Host σ)
  | run (host : Host σ)

/-- The same call, with a list of all that reaches its host. -/
def Drive.transcribing : Drive σ → Drive (σ × List Contact)
  | .step host => .step host.transcribing
  | .run host => .run host.transcribing

namespace Evaluation

/-- What a call returns and leaves; a step may return no exit. -/
def drive (evaluation : Evaluation) (state : σ) : Drive σ → Option Exit × Evaluation × σ
  | .step host => evaluation.step host state
  | .run host =>
      let ran := evaluation.run host state
      (some ran.1, ran.2)

/-- What a sequence of calls leaves, whatever they return. -/
def driven (evaluation : Evaluation) (state : σ) : List (Drive σ) → Evaluation × σ
  | [] => (evaluation, state)
  | call :: later =>
      let after := (evaluation.drive state call).2
      after.1.driven after.2 later

variable {host : Host σ} {evaluation : Evaluation} {state : σ} {exit : Exit}

/-- The evaluation and its machine both stand at what the last call has returned. -/
def Stands (evaluation : Evaluation) : Option Exit → Prop
  | none => evaluation.Running
  | some exit => evaluation.Ended exit

theorem Stands.status_eq {answer : Option Exit} (stands : evaluation.Stands answer) :
    evaluation.status = answer ∧ evaluation.machine.status = answer := by
  cases answer with
  | none => exact ⟨Running.status stands, Running.machine stands⟩
  | some exit => exact ⟨Ended.status stands, Ended.machine stands⟩

theorem stands_of_step (host : Host σ) (state : σ) (running : evaluation.Running) :
    (evaluation.step host state).2.1.Stands (evaluation.step host state).1 := by
  rcases stepped : evaluation.step host state with ⟨answer, after, state'⟩
  cases answer with
  | none => exact running_of_step running stepped
  | some exit =>
      rcases turns_of_step running stepped with ⟨turns, status⟩
      exact ⟨status, turns.status_eq running.machine⟩

theorem stands_of_run (host : Host σ) (state : σ) (running : evaluation.Running) :
    (evaluation.run host state).2.1.Ended (evaluation.run host state).1 := by
  rcases ended_of_run host state running with ⟨count, ran, ended⟩
  rw [ran]
  exact ended

theorem run_of_ended (ended : evaluation.Ended exit) :
    evaluation.run host state = (exit, evaluation, state) := by
  have stepped : evaluation.step host state = (some exit, evaluation, state) := step_of_ended ended
  rw [run_of_some (congrArg Prod.fst stepped), stepped]

/-- A call on an evaluation that has ended returns the exit and does nothing else. -/
theorem drive_of_ended (ended : evaluation.Ended exit) (state : σ) (call : Drive σ) :
    evaluation.drive state call = (some exit, evaluation, state) := by
  cases call with
  | step host => exact step_of_ended ended
  | run host => simp only [drive, run_of_ended ended]

theorem driven_of_ended (ended : evaluation.Ended exit) (state : σ) (calls : List (Drive σ)) :
    evaluation.driven state calls = (evaluation, state) := by
  induction calls with
  | nil => rfl
  | cons call later ih =>
      simp only [driven, drive_of_ended ended]
      exact ih

theorem Stands.drive {answer : Option Exit} (stands : evaluation.Stands answer) (state : σ)
    (call : Drive σ) :
    (evaluation.drive state call).2.1.Stands (evaluation.drive state call).1 := by
  cases answer with
  | none =>
      cases call with
      | step host => exact stands_of_step host state stands
      | run host => exact stands_of_run host state stands
  | some exit =>
      rw [drive_of_ended stands state call]
      exact stands

theorem Stands.driven {answer : Option Exit} (stands : evaluation.Stands answer) (state : σ)
    (calls : List (Drive σ)) : ∃ last, (evaluation.driven state calls).1.Stands last := by
  induction calls generalizing evaluation state answer with
  | nil => exact ⟨answer, stands⟩
  | cons call later ih => exact ih (stands.drive state call) _

/--
Exits are absorbing. After every call of any sequence, over any hosts, the
evaluation and its machine have the status that the call has returned. Once it is an
exit, all further calls leave the evaluation and the state of the host as they are:
a step as well as a run returns the same exit, and the host is asked nothing, told
of nothing and charged nothing.
-/
theorem exits_are_absorbing (program : Program) (context : Context)
    (source outputs stackLimit : Nat) (layout : Layout) (space : Word) {initial reached state : σ}
    {earlier : List (Drive σ)} {call : Drive σ} {before evaluation : Evaluation}
    {answer : Option Exit}
    (led : (start (.start program context source outputs stackLimit layout) space).driven
      initial earlier = (before, reached))
    (answered : before.drive reached call = (answer, evaluation, state)) :
    evaluation.status = answer ∧ evaluation.machine.status = answer ∧
      ∀ exit, answer = some exit → ∀ (later : List (Drive σ)) (next : Drive σ),
        let now := evaluation.driven state later
        now = (evaluation, state) ∧
        now.1.drive now.2 next = (some exit, evaluation, state) ∧
        now.1.drive (now.2, []) next.transcribing = (some exit, evaluation, state, []) := by
  have started : (start (.start program context source outputs stackLimit layout) space).Stands
      none := running_start program context source outputs stackLimit layout space
  have stands : evaluation.Stands answer := by
    rcases started.driven initial earlier with ⟨last, stood⟩
    rw [led] at stood
    have stands := stood.drive reached call
    rw [answered] at stands
    exact stands
  refine ⟨stands.status_eq.1, stands.status_eq.2, ?_⟩
  rintro exit rfl later next now
  have still : now = (evaluation, state) := driven_of_ended stands state later
  refine ⟨still, ?_, ?_⟩
  · rw [still]
    exact drive_of_ended stands state next
  · rw [still]
    exact drive_of_ended stands (state, []) next.transcribing

/-- The meter runs out at the second step; the test behind it is never come to. -/
theorem exits_are_absorbing_exhausted :
    let program : Program := ⟨#[#[0x00, 0, 0x00, 0, 0x27, 17]], #[0]⟩
    let host : Host (Executor SparseStore) := Executor.host
    let executor : Executor SparseStore := .start {} 1 { listening := true }
    let before := (start (.start program {} 0 1 2 .standard) 3).driven executor [.step host]
    let answered := before.1.drive before.2 (.step host)
    answered.1 = some (.failed .resourceExhausted) ∧
      answered.2.1.status = some (.failed .resourceExhausted) ∧
      answered.2.1.machine.status = some (.failed .resourceExhausted) ∧
      let now := answered.2.1.driven answered.2.2 [.run host, .step host]
      now = (answered.2.1, answered.2.2) ∧ now.1.drive now.2 (.run host) = answered := by
  intro program host executor before answered
  have exhausted : answered.1 = some (.failed .resourceExhausted) := by decide +kernel
  have reached : before = (before.1, before.2) := (Prod.eta before).symm
  have returned : answered =
      (some (.failed .resourceExhausted), answered.2.1, answered.2.2) := by
    rw [← exhausted]
  rcases exits_are_absorbing program {} 0 1 2 .standard 3 reached returned with
    ⟨status, machineStatus, absorbs⟩
  rcases absorbs _ rfl [.run host, .step host] (.run host) with ⟨still, same, _⟩
  refine ⟨exhausted, status, machineStatus, still, ?_⟩
  rw [same, ← returned]

end Evaluation

end StackCert
