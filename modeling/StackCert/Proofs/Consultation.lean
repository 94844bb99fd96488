import StackCert.Host.Scripted
import StackCert.Proofs.Advance

/-!
# What a step asks of its host

A step that finds an instruction announces it and asks the host to permit it. The
machine then runs it by itself, or it traps and the host is asked for one thing
more: to read a key, to write one or to show something. What was read or written
is announced afterwards, and only if the host has answered.

`Evaluation.Consults` lists the steps of a running evaluation with what they leave
of the evaluation and of the host's state. A fact about states of a host, or about
the exits that it causes, is proved over these cases. `Host.transcribing` writes
down everything that reaches a host, to show what a step asks of it.
-/

namespace StackCert

variable {σ : Type}

/-- Something that reaches a host. -/
inductive Contact where
  | call (call : Call)
  | event (event : Event)
deriving DecidableEq, Repr

/-- The host with a list of all that reached it, in order. -/
def Host.transcribing (host : Host σ) : Host (σ × List Contact) where
  get state space key :=
    let answer := host.get state.1 space key
    (answer.1, answer.2, state.2 ++ [.call (.get space key)])
  set state space key value :=
    let answer := host.set state.1 space key value
    (answer.1, answer.2, state.2 ++ [.call (.set space key value)])
  permit state instruction stack :=
    let answer := host.permit state.1 instruction stack
    (answer.1, answer.2, state.2 ++ [.call (.permit instruction stack.size)])
  debug state style machine :=
    let answer := host.debug state.1 style machine
    (answer.1, answer.2,
      state.2 ++ [.call (.debug style machine.frame? machine.stack.size)])
  observe state event := (host.observe state.1 event, state.2 ++ [.event event])

namespace Evaluation

variable {host : Host σ} {evaluation after : Evaluation} {state state' : σ}

/-- How a host answers the announcement of an instruction. -/
def admission (host : Host σ) (evaluation : Evaluation) (state : σ) (instruction : Instruction) :
    Except Failure Unit × σ :=
  host.permit
    (host.observe state (.step evaluation.space instruction evaluation.machine.stack))
    instruction evaluation.machine.stack

/-- The host has permitted the next instruction, or there is none. -/
inductive Admits (host : Host σ) (evaluation : Evaluation) (state : σ) : σ → Prop where
  | unasked (nothing : evaluation.machine.inspect? = none) : Admits host evaluation state state
  | permitted {instruction : Instruction} {answered : σ}
      (inspected : evaluation.machine.inspect? = some instruction)
      (answer : evaluation.admission host state instruction = (.ok (), answered)) :
      Admits host evaluation state answered

/-- The steps of a running evaluation. -/
inductive Consults (host : Host σ) (evaluation : Evaluation) (state : σ) :
    Option Exit → Evaluation → σ → Prop where
  /-- The host did not permit the next instruction. -/
  | denied {instruction : Instruction} {failure : Failure} {answered : σ}
      (inspected : evaluation.machine.inspect? = some instruction)
      (answer : evaluation.admission host state instruction = (.error failure, answered)) :
      Consults host evaluation state (some (.failed failure)) (evaluation.exit (.failed failure))
        answered
  /-- The machine went on by itself. -/
  | alone {machine : Machine} {admitted : σ} (admits : evaluation.Admits host state admitted)
      (stepped : evaluation.machine.step = (.continued, machine)) :
      Consults host evaluation state none { evaluation with machine } admitted
  /-- The machine stopped or failed by itself. -/
  | exited {exit : Exit} {machine : Machine} {admitted : σ}
      (admits : evaluation.Admits host state admitted)
      (stepped : evaluation.machine.step = (.exited exit, machine)) :
      Consults host evaluation state (some exit)
        { evaluation with machine, status := some exit } admitted
  /-- The host resolved the instruction that the machine trapped on. -/
  | resolved {instruction : Instruction} {machine : Machine} {admitted answered : σ}
      {after : Evaluation} (admits : evaluation.Admits host state admitted)
      (stepped : evaluation.machine.step = (.trapped instruction, machine))
      (resolves : { evaluation with machine }.Resolves host admitted instruction (.ok ()) after
        answered) :
      Consults host evaluation state none after answered
  /-- The host did not resolve it. -/
  | refused {instruction : Instruction} {machine : Machine} {admitted answered : σ}
      {after : Evaluation} {failure : Failure} (admits : evaluation.Admits host state admitted)
      (stepped : evaluation.machine.step = (.trapped instruction, machine))
      (resolves : { evaluation with machine }.Resolves host admitted instruction (.error failure)
        after answered) :
      Consults host evaluation state (some (.failed failure)) (after.exit (.failed failure))
        answered

/-- The machine traps on an instruction, and the host refuses what it is asked for. -/
def Unresolved (host : Host σ) (evaluation : Evaluation) (state : σ) (failure : Failure)
    (answered : σ) : Prop :=
  ∃ instruction machine admitted after, evaluation.Admits host state admitted ∧
    evaluation.machine.step = (.trapped instruction, machine) ∧
    { evaluation with machine }.Resolves host admitted instruction (.error failure) after answered

theorem admits_or_denied_of_permit (admission : evaluation.permit host state = (after, state')) :
    (after = evaluation ∧ evaluation.Admits host state state') ∨
      ∃ instruction failure, evaluation.machine.inspect? = some instruction ∧
        evaluation.admission host state instruction = (.error failure, state') ∧
        after = evaluation.exit (.failed failure) := by
  unfold permit at admission
  split at admission
  · rename_i nothing
    cases admission
    exact Or.inl ⟨rfl, .unasked nothing⟩
  · rename_i instruction inspected
    split at admission
    · rename_i answer
      cases admission
      exact Or.inl ⟨rfl, .permitted inspected answer⟩
    · rename_i failure _ answer
      cases admission
      exact Or.inr ⟨instruction, failure, inspected, answer, rfl⟩

/-- Every step of a running evaluation is one of these. -/
theorem consults_of_step {exit? : Option Exit} (running : evaluation.Running)
    (stepped : evaluation.step host state = (exit?, after, state')) :
    evaluation.Consults host state exit? after state' := by
  unfold step at stepped
  split at stepped
  rename_i admission
  rcases admits_or_denied_of_permit admission with
    ⟨rfl, admits⟩ | ⟨instruction, failure, inspected, answer, rfl⟩
  · simp only [running.status] at stepped
    unfold proceed at stepped
    split at stepped
    · rename_i machineStepped
      cases stepped
      exact .alone admits machineStepped
    · rename_i machineStepped
      cases stepped
      exact .exited admits machineStepped
    · rename_i machineStepped
      split at stepped
      all_goals
        rename_i resolved
        cases stepped
        rcases resolves_of_trapped running machineStepped resolved with
          ⟨_, _, _, _, _, _, _, resolves⟩
      · exact .resolved admits machineStepped resolves
      · exact .refused admits machineStepped resolves
  · cases stepped
    exact .denied inspected answer

end Evaluation

end StackCert
