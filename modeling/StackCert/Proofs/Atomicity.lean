import StackCert.Proofs.DeclaredEffect
import StackCert.Proofs.Soundness

/-!
# A failed step changes nothing

A machine that fails by itself keeps its stack and its frames. Only a test that
does not hold has already taken its condition. An instruction that the host denies
leaves the machine alone as well, and the host is asked for nothing else.

`Machine.reducing` puts a result in the place of its values in one go. On a stack
that is changed in place there is no such thing: values are taken off one by one or
all together, the result is pushed afterwards, and what was taken is gone if
anything fails in between. `Machine.performInPlace` runs an operation in this way.
No difference can be seen, for two reasons. Values are counted before an operation
is run, so none is missing in the middle of it. And as at least one was taken, there
is room for the result.
-/

namespace StackCert

namespace Stack

/--
Takes values off one after the other and returns them bottom first. If one is
missing, those above it have been taken all the same.
-/
def popEach : Nat → Stack → Except Failure (List Word) × Stack
  | 0, stack => (.ok [], stack)
  | count + 1, stack =>
      match stack.pop with
      | .error failure => (.error failure, stack)
      | .ok (word, below) =>
          match popEach count below with
          | (.error failure, left) => (.error failure, left)
          | (.ok words, left) => (.ok (words ++ [word]), left)

/-- Enough values can be taken one by one as well as together. -/
theorem popEach_of_top {count : Nat} {stack below : Stack} {words : List Word}
    (topped : stack.top count = .ok words) (discarded : stack.discard count = .ok below) :
    popEach count stack = (.ok words, below) := by
  rcases top_eq_ok_iff.mp topped with ⟨enough, rfl⟩
  rcases discard_eq_ok_iff.mp discarded with ⟨-, left, limit⟩
  clear topped discarded
  induction count generalizing stack with
  | zero =>
      have same : below = stack := by
        apply ext_toList _ limit
        simp [left, ← length_toList]
      simp [popEach, same, ← length_toList]
  | succ count ih =>
      cases popped : stack.pop with
      | error failure =>
          have empty := (pop_eq_error_iff.mp popped).1
          omega
      | ok taken =>
          rcases taken with ⟨word, rest⟩
          rcases pop_eq_ok_iff.mp popped with ⟨words, restLimit⟩
          have size : stack.size = rest.size + 1 := by
            rw [← length_toList, words, List.length_append, length_toList, List.length_singleton]
          have within : rest.size - count ≤ rest.toList.length := by
            rw [length_toList]
            omega
          have shifted : stack.size - (count + 1) = rest.size - count := by omega
          rw [words, shifted, List.take_append_of_le_length within] at left
          simp only [popEach, popped, ih (by omega) left (limit.trans restLimit.symm)]
          rw [words, shifted, List.drop_append_of_le_length within]

end Stack

namespace Reducer

/-- Whether a reducer takes its values off the stack before it computes with them. -/
def takesFirst : Reducer → Bool
  | .isZero | .equalTo | .lessThan | .greaterThan | .eagerIf | .saturatingDiff | .updateTimes =>
      true
  | _ => false

/-- What can fail to combine its values computes with them first. -/
theorem Aborts.takesFirst_eq_false {reducer : Reducer} {failure : Failure}
    (aborts : reducer.Aborts failure) : reducer.takesFirst = false := by
  cases aborts with
  | overflow checked =>
      simp only [List.mem_cons, List.not_mem_nil, or_false] at checked
      rcases checked with rfl | rfl | rfl | rfl <;> rfl
  | divisionByZero divides =>
      simp only [List.mem_cons, List.not_mem_nil, or_false] at divides
      rcases divides with rfl | rfl <;> rfl

end Reducer

namespace Machine

/-- Takes values off one by one and pushes what they combine to. -/
def exchanging (stack : Stack) (count : Nat) (combine : List Word → Except Failure Word) :
    Control :=
  match stack.popEach count with
  | (.error failure, left) => .halt left failure
  | (.ok words, below) => pushing below (combine words)

/-- Combines the values on top, then discards them and pushes the result. -/
def collapsing (stack : Stack) (count : Nat) (combine : List Word → Except Failure Word) :
    Control :=
  match stack.top count >>= combine with
  | .error failure => .halt stack failure
  | .ok word =>
      match stack.discard count with
      | .error failure => .halt stack failure
      | .ok below => pushing below (.ok word)

/-- Runs an operation on a stack that keeps each change, also if a later one fails. -/
def performInPlace (machine : Machine) (frame : Frame) (operation : Operation) (operand : UInt8) :
    Control :=
  match operation with
  | .reduce reducer =>
      match reducer.arity operand with
      | .error failure => .halt machine.stack failure
      | .ok count =>
          let combine := reducer.combine machine.layout operand
          if reducer.takesFirst then exchanging machine.stack count combine
          else collapsing machine.stack count combine
  | _ => machine.perform frame operation operand

/-- With its values counted beforehand, an operation can as well be run in place. -/
theorem performInPlace_eq {machine : Machine} {frame : Frame} {callers : List Frame}
    {instruction : Instruction} {operation : Operation} {effect : Effect}
    (supported : machine.layout.Supported)
    (fetches : machine.Fetches frame callers instruction operation effect) :
    machine.performInPlace frame operation instruction.operand =
      machine.perform frame operation instruction.operand := by
  cases operation with
  | reduce reducer =>
      have described := fetches.described
      cases counted : reducer.arity instruction.operand with
      | error failure => simp [Operation.effect, counted, Except.map] at described
      | ok count =>
          simp only [Operation.effect, counted, Except.map, Except.ok.injEq] at described
          subst described
          have enough : count ≤ machine.stack.size :=
            Nat.le_trans fetches.enough (Nat.sub_le _ _)
          rcases Stack.collapse_of_enough (Reducer.arity_pos counted) enough with
            ⟨words, below, length, topped, discarded, room⟩
          simp only [performInPlace, perform, counted,
            reducing_of_combine counted topped discarded room]
          cases combined : reducer.combine machine.layout instruction.operand words with
          | ok word =>
              simp [exchanging, collapsing, Stack.popEach_of_top topped discarded, topped,
                discarded, combined, bind, Except.bind]
          | error failure =>
              -- what fails to combine on a supported layout has not taken its values yet
              have aborts := Reducer.aborts_of_combine supported (length ▸ counted) combined
              simp [aborts.takesFirst_eq_false, collapsing, topped, combined, bind, Except.bind]
  | _ => rfl

variable {machine after : Machine} {failure : Failure}

/-- What is left of the stack by a step that fails. -/
inductive Forfeits (machine : Machine) (failure : Failure) : Stack → Prop where
  /-- Nothing was taken; a test that is next has found no value. -/
  | nothing (untested : ∀ code, machine.inspect? = some ⟨Operation.ensure.opcode, code⟩ →
      failure = .stackUnderflow) : Forfeits machine failure machine.stack
  /-- The test that is next has taken its condition, which is zero. -/
  | condition {code : UInt8} {below : Stack}
      (inspected : machine.inspect? = some ⟨Operation.ensure.opcode, code⟩)
      (failed : failure = .ensureFailed code) (limit : below.limit = machine.stack.limit)
      (words : machine.stack.toList = below.toList ++ [0]) : Forfeits machine failure below

/-- A step that fails changes the status, and the stack as far as values are forfeit. -/
def Fails (machine : Machine) (failure : Failure) (after : Machine) : Prop :=
  ∃ left, machine.Forfeits failure left ∧
    after = { machine with stack := left, status := some (.failed failure) }

theorem fails_of_still
    (untested : ∀ code, machine.inspect? = some ⟨Operation.ensure.opcode, code⟩ →
      failure = .stackUnderflow) : machine.Fails failure (machine.exit (.failed failure)) :=
  ⟨machine.stack, .nothing untested, rfl⟩

theorem of_require_eq_halt {stack left : Stack} {code : UInt8}
    (halted : require stack code = .halt left failure) :
    (left = stack ∧ failure = .stackUnderflow) ∨
      (failure = .ensureFailed code ∧ stack.pop = .ok (0, left)) := by
  unfold require at halted
  split at halted
  · rename_i popped
    cases halted
    exact Or.inl ⟨rfl, (Stack.pop_eq_error_iff.mp popped).2⟩
  · rename_i condition below popped
    split at halted
    · rename_i isZero
      cases halted
      exact Or.inr ⟨rfl, isZero ▸ popped⟩
    · simp at halted

theorem fails_of_follow {frame : Frame} {callers : List Frame} {instruction : Instruction}
    {operation : Operation} {effect : Effect} (running : machine.status = none)
    (fetches : machine.Fetches frame callers instruction operation effect)
    (followed : machine.follow frame callers instruction
      (machine.perform frame operation instruction.operand) = (.exited (.failed failure), after)) :
    machine.Fails failure after := by
  have inspected := inspect?_of_fetches running fetches
  cases control : machine.perform frame operation instruction.operand with
  | next | call | trap => simp [control, follow] at followed
  | halt left other =>
      rw [control] at followed
      cases followed
      by_cases test : operation = .ensure
      · subst test
        have opcode := Opcode.eq_opcode_of_operation?
          (Instruction.operation_eq_ok_iff.mp fetches.assigned)
        rcases of_require_eq_halt control with ⟨rfl, rfl⟩ | ⟨rfl, popped⟩
        · exact fails_of_still fun _ _ => rfl
        · rcases Stack.pop_eq_ok_iff.mp popped with ⟨words, limit⟩
          refine ⟨left, .condition ?_ rfl limit words, rfl⟩
          rw [inspected, ← opcode]
      · rcases stack_of_perform_eq_halt control with rfl | ⟨isTest, _⟩
        · apply fails_of_still
          intro code isTest
          cases inspected.symm.trans isTest
          exact absurd (Except.ok.inj fetches.assigned).symm test
        · exact absurd isTest test

/-- A running machine that fails has changed nothing, but for the condition of a test. -/
theorem fails_of_step (running : machine.status = none) (framed : machine.frames ≠ [])
    (stepped : machine.step = (.exited (.failed failure), after)) :
    machine.Fails failure after := by
  rcases List.exists_cons_of_ne_nil framed with ⟨frame, callers, frames⟩
  rcases endsAt_or_fetches_or_fails running frames with
    ended | ⟨instruction, operation, effect, fetches⟩ | ⟨cause, fails, underflow⟩
  · have nothing := inspect?_of_endsAt frames ended
    rw [step_of_endsAt running frames ended] at stepped
    unfold leave at stepped
    split at stepped
    · split at stepped <;> simp [finish] at stepped
    · cases stepped
      apply fails_of_still
      intro code isTest
      simp [nothing] at isTest
  · rw [step_of_fetches running fetches] at stepped
    exact fails_of_follow running fetches stepped
  · rw [fails] at stepped
    cases stepped
    apply fails_of_still
    intro code isTest
    rcases holds_of_inspect? isTest with ⟨frame', callers', frames', held⟩
    cases frames.symm.trans frames'
    exact underflow _ _ held rfl

end Machine

namespace Evaluation

variable {σ : Type} {host : Host σ} {evaluation : Evaluation} {state denied : σ}
  {instruction : Instruction} {failure : Failure}

theorem step_of_admission_eq_error (inspected : evaluation.machine.inspect? = some instruction)
    (answer : evaluation.admission host state instruction = (.error failure, denied)) :
    evaluation.step host state =
      (some (.failed failure), evaluation.exit (.failed failure), denied) := by
  rw [admission] at answer
  simp only [step, permit, inspected, answer, exit]

/-- An instruction that is denied was announced, and nothing but permission was asked for. -/
theorem admission_transcribing
    (answer : evaluation.admission host state instruction = (.error failure, denied)) :
    evaluation.admission host.transcribing (state, []) instruction =
      (.error failure, denied,
        [.event (.step evaluation.space instruction evaluation.machine.stack),
          .call (.permit instruction evaluation.machine.stack.size)]) := by
  rw [admission] at answer
  simp [admission, Host.transcribing, answer]

/--
Failed steps are atomic, at every moment of a run and for every program and host. A
machine that fails by itself has all its frames and values as before; only a test
that does not hold has taken its condition, a zero, from the top. If the host denies
an instruction, the evaluation ends with frames and values as before, and the host
was only told of the instruction and asked to permit it. This does not depend on how
operations handle the stack: one that is fetched may as well be run in place.
-/
theorem failed_steps_are_atomic (program : Program) (context : Context)
    (source outputs stackLimit : Nat) (layout : Layout) (space : Word) {initial : σ} {steps : Nat}
    (reached : (start (.start program context source outputs stackLimit layout) space).after host
      initial steps = (evaluation, state)) :
    let machine := evaluation.machine
    (∀ failure after, machine.step = (.exited (.failed failure), after) →
      machine.Fails failure after) ∧
    (∀ instruction failure denied, machine.inspect? = some instruction →
      evaluation.admission host state instruction = (.error failure, denied) →
      evaluation.step host state =
        (some (.failed failure), evaluation.exit (.failed failure), denied) ∧
      evaluation.step host.transcribing (state, []) =
        (some (.failed failure), evaluation.exit (.failed failure), denied,
          [.event (.step space instruction machine.stack),
            .call (.permit instruction machine.stack.size)])) ∧
    (layout.Supported → machine.status = none →
      ∀ frame callers instruction operation effect,
        machine.Fetches frame callers instruction operation effect →
        machine.step = machine.follow frame callers instruction
          (machine.performInPlace frame operation instruction.operand)) := by
  intro machine
  have started := running_start program context source outputs stackLimit layout space
  have moment := running_or_ended_after host initial started steps
  have sameLayout := (surroundings_after host initial started steps).2.2
  rw [reached] at moment sameLayout
  refine ⟨?_, ?_, ?_⟩
  · intro failure after stepped
    rcases moment with ⟨running, _⟩ | ⟨exit, ended⟩
    · exact Machine.fails_of_step running.machine running.framed stepped
    · cases ended.step_machine.symm.trans stepped
      refine ⟨machine.stack, .nothing ?_, ?_⟩
      · intro code isTest
        cases ended.inspect?_eq_none.symm.trans isTest
      · rw [← ended.machine]
  · intro instruction failure denied inspected answer
    have owned : evaluation.space = space := by
      rcases moment with ⟨_, owned⟩ | ⟨exit, ended⟩
      · exact owned
      · cases ended.inspect?_eq_none.symm.trans inspected
    refine ⟨step_of_admission_eq_error inspected answer, ?_⟩
    rw [step_of_admission_eq_error inspected (admission_transcribing answer), owned]
  · intro supported running frame callers instruction operation effect fetches
    have here : machine.layout.Supported := by
      rw [show machine.layout = layout from sameLayout]
      exact supported
    rw [Machine.step_of_fetches running fetches, Machine.performInPlace_eq here fetches]

/-- A test finds a zero, and the meter has no step left for it. -/
theorem failed_steps_are_atomic_tested :
    let program : Program := ⟨#[#[0x00, 0, 0x00, 1, 0x27, 17]], #[7, 0]⟩
    let executor : Executor SparseStore := .start {} 2 {}
    let now := (start (.start program {} 0 1 2 .standard) 3).after Executor.host executor 2
    let machine := now.1.machine
    let frame : Frame := ⟨0, 4, 0, 1⟩
    let test : Instruction := ⟨Operation.ensure.opcode, 17⟩
    machine.stack.toList = [7, 0] ∧ machine.step.1 = .exited (.failed (.ensureFailed 17)) ∧
      machine.Fails (.ensureFailed 17) machine.step.2 ∧ machine.step.2.stack.toList = [7] ∧
      (now.1.admission Executor.host now.2 test).1 = .error .resourceExhausted ∧
      (now.1.step Executor.host now.2).2.1 = now.1.exit (.failed .resourceExhausted) ∧
      machine.step = machine.follow frame [] test (machine.performInPlace frame .ensure 17) := by
  intro program executor now machine frame test
  have failed : machine.step.1 = .exited (.failed (.ensureFailed 17)) := by decide +kernel
  have stepped : machine.step = (.exited (.failed (.ensureFailed 17)), machine.step.2) := by
    rw [← failed]
  have inspected : machine.inspect? = some test := by decide +kernel
  have denied : (now.1.admission Executor.host now.2 test).1 = .error .resourceExhausted := by
    decide +kernel
  have answer : now.1.admission Executor.host now.2 test =
      (.error .resourceExhausted, (now.1.admission Executor.host now.2 test).2) := by
    rw [← denied]
  have running : machine.status = none := by decide +kernel
  have frames : machine.frames = [frame] := by decide +kernel
  have held : machine.program.Holds frame.source frame.position test := by
    refine ⟨#[0x00, 0, 0x00, 1, 0x27, 17], ?_, ?_⟩ <;> decide +kernel
  have enough : 1 ≤ machine.stack.size - frame.base := by decide +kernel
  have here : now = (now.1, now.2) := (Prod.eta now).symm
  rcases failed_steps_are_atomic program {} 0 1 2 .standard 3 here with ⟨fails, refuses, inPlace⟩
  refine ⟨by decide +kernel, failed, ?_, by decide +kernel, denied, ?_, ?_⟩
  · exact fails (.ensureFailed 17) machine.step.2 stepped
  · rw [(refuses test .resourceExhausted _ inspected answer).1]
  · exact inPlace (Or.inr rfl) running frame [] test .ensure ⟨1, 0⟩
      ⟨frames, held, rfl, rfl, enough⟩

end Evaluation

end StackCert
