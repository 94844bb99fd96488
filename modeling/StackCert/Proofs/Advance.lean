import StackCert.Proofs.Exchange

/-!
# How a run moves on

A step that does not end the run does one of three things: it runs an
instruction in the innermost frame, it opens a frame for a call, or it closes
the innermost frame. `Machine.Advances` lists them with everything that was
tested before. The relation speaks of the machine alone: a step of an
evaluation that goes on is a step of the relation whatever its host did, so
facts about runs can be proved over it once for all hosts.

`Machine.ahead` lists the instructions that the open frames still have before
them. A step takes the instruction it runs from the front of that list, so the
instructions of a whole run are known from its start.
-/

namespace StackCert

namespace Program

/-- A source has an instruction at a byte position. -/
def Holds (program : Program) (source position : Nat) (instruction : Instruction) : Prop :=
  ∃ code, program.sources[source]? = some code ∧ code.instruction? position = some instruction

/-- A source ends at a byte position. -/
def EndsAt (program : Program) (source position : Nat) : Prop :=
  ∃ code, program.sources[source]? = some code ∧ position = code.size

theorem Holds.unique {program : Program} {source position : Nat}
    {left right : Instruction} (leftHeld : program.Holds source position left)
    (rightHeld : program.Holds source position right) : left = right := by
  rcases leftHeld with ⟨code, found, leftFound⟩
  rcases rightHeld with ⟨code', found', rightFound⟩
  cases found.symm.trans found'
  exact Option.some.inj (leftFound.symm.trans rightFound)

theorem EndsAt.unique {program : Program} {source left right : Nat}
    (leftEnds : program.EndsAt source left) (rightEnds : program.EndsAt source right) :
    left = right := by
  rcases leftEnds with ⟨code, found, rfl⟩
  rcases rightEnds with ⟨code', found', rfl⟩
  cases found.symm.trans found'
  rfl

/-- No instruction stands where a source ends. -/
theorem EndsAt.not_holds {program : Program} {source position : Nat} {instruction : Instruction}
    (ended : program.EndsAt source position) : ¬program.Holds source position instruction := by
  rintro ⟨code, found, held⟩
  rcases ended with ⟨code', found', rfl⟩
  cases found.symm.trans found'
  have inside := Code.lt_size_of_instruction? held
  omega

end Program

namespace Machine

/-- The next instruction of the innermost frame, with enough values in the frame for its effect. -/
structure Fetches (machine : Machine) (frame : Frame) (callers : List Frame)
    (instruction : Instruction) (operation : Operation) (effect : Effect) : Prop where
  frames : machine.frames = frame :: callers
  held : machine.program.Holds frame.source frame.position instruction
  assigned : instruction.operation = .ok operation
  described : operation.effect instruction.operand = .ok effect
  enough : effect.pops ≤ machine.stack.size - frame.base

/-- The moves of a run that goes on. -/
inductive Advances (machine : Machine) : Machine → Prop where
  /-- An instruction other than a call was run, by the machine or by its host. -/
  | run {frame : Frame} {callers : List Frame} {instruction : Instruction}
      {operation : Operation} {effect : Effect} {stack : Stack}
      (fetches : machine.Fetches frame callers instruction operation effect)
      (plain : operation ≠ .call)
      (admitted : machine.program.admitsOperand machine.context.bounds
        (machine.stack.size - frame.base) operation instruction.operand = true)
      (exchanges : machine.stack.Exchanges stack effect) :
      Advances machine { machine with frames := frame.advance :: callers, stack }
  /-- A frame was opened for a call. -/
  | enter {frame : Frame} {callers : List Frame} {instruction : Instruction} {call : CallOperand}
      (fetches : machine.Fetches frame callers instruction .call ⟨call.inputs, call.outputs⟩)
      (named : CallOperand.ofByte instruction.operand = call)
      (later : frame.source < call.source)
      (present : call.source < machine.program.sources.size) :
      Advances machine { machine with
        frames := ⟨call.source, 0, machine.stack.size - call.inputs, call.outputs⟩ ::
          frame.advance :: callers }
  /-- The innermost frame was closed and its caller goes on. -/
  | leave {frame caller : Frame} {callers : List Frame}
      (frames : machine.frames = frame :: caller :: callers)
      (ended : machine.program.EndsAt frame.source frame.position)
      (full : machine.stack.size - frame.base = frame.outputs) :
      Advances machine { machine with frames := caller :: callers }

/-- A fetched instruction is the one that is run. -/
theorem step_of_fetches {machine : Machine} {frame : Frame} {callers : List Frame}
    {instruction : Instruction} {operation : Operation} {effect : Effect}
    (running : machine.status = none)
    (fetches : machine.Fetches frame callers instruction operation effect) :
    machine.step = machine.follow frame callers instruction
      (machine.perform frame operation instruction.operand) := by
  rcases fetches with ⟨frames, ⟨code, found, held⟩, assigned, described, enough⟩
  simp only [step, running, frames, found, held, execute, assigned, described]
  rw [if_neg (by omega)]

/-- A frame whose source has ended is left. -/
theorem step_of_endsAt {machine : Machine} {frame : Frame} {callers : List Frame}
    (running : machine.status = none) (frames : machine.frames = frame :: callers)
    (ended : machine.program.EndsAt frame.source frame.position) :
    machine.step = machine.leave frame callers := by
  rcases ended with ⟨code, found, atEnd⟩
  have missing : code.instruction? frame.position = none := by
    cases held : code.instruction? frame.position with
    | none => rfl
    | some instruction =>
        have inside := Code.lt_size_of_instruction? held
        omega
  simp only [step, running, frames, found, missing]
  rw [if_pos atEnd]

/--
A step leaves the innermost frame, runs a fetched instruction, or fails at once. An
instruction with an effect fails at once only for want of values.
-/
theorem endsAt_or_fetches_or_fails {machine : Machine} {frame : Frame} {callers : List Frame}
    (running : machine.status = none) (frames : machine.frames = frame :: callers) :
    machine.program.EndsAt frame.source frame.position ∨
      (∃ instruction operation effect,
        machine.Fetches frame callers instruction operation effect) ∨
      ∃ failure, machine.step = machine.finish (.failed failure) ∧
        ∀ instruction effect, machine.program.Holds frame.source frame.position instruction →
          instruction.effect = .ok effect → failure = .stackUnderflow := by
  cases found : machine.program.sources[frame.source]? with
  | none =>
      refine Or.inr (Or.inr ⟨.operandOutOfBounds, by simp [step, running, frames, found], ?_⟩)
      rintro instruction effect ⟨code, present, _⟩
      simp [found] at present
  | some code =>
      cases held : code.instruction? frame.position with
      | none =>
          by_cases atEnd : frame.position = code.size
          · exact Or.inl ⟨code, found, atEnd⟩
          · refine Or.inr (Or.inr ⟨.malformedEncoding, ?_, ?_⟩)
            · simp [step, running, frames, found, held, atEnd]
            · rintro instruction effect ⟨code', found', held'⟩
              cases found.symm.trans found'
              simp [held] at held'
      | some instruction =>
          have here : machine.program.Holds frame.source frame.position instruction :=
            ⟨code, found, held⟩
          have stepped : machine.step = machine.execute frame callers instruction := by
            simp [step, running, frames, found, held]
          rw [stepped]
          right
          cases assigned : instruction.operation with
          | error failure =>
              refine Or.inr ⟨failure, by simp [execute, assigned], ?_⟩
              intro other effect isHeld described
              cases here.unique isHeld
              simp [Instruction.effect, assigned] at described
          | ok operation =>
              cases described : operation.effect instruction.operand with
              | error failure =>
                  refine Or.inr ⟨failure, by simp [execute, assigned, described], ?_⟩
                  intro other effect isHeld hasEffect
                  cases here.unique isHeld
                  simp [Instruction.effect, assigned, described] at hasEffect
              | ok effect =>
                  by_cases fewer : machine.stack.size - frame.base < effect.pops
                  · refine Or.inr ⟨.stackUnderflow, ?_, fun _ _ _ _ => rfl⟩
                    simp [execute, assigned, described, fewer]
                  · exact Or.inl ⟨instruction, operation, effect, frames, here, assigned,
                      described, Nat.not_lt.mp fewer⟩

/-- A step that does not fail leaves the innermost frame or runs a fetched instruction. -/
theorem endsAt_or_fetches_of_step {machine after : Machine} {outcome : Outcome} {frame : Frame}
    {callers : List Frame} (running : machine.status = none)
    (frames : machine.frames = frame :: callers) (stepped : machine.step = (outcome, after))
    (goesOn : ∀ failure, outcome ≠ .exited (.failed failure)) :
    machine.program.EndsAt frame.source frame.position ∨
      ∃ instruction operation effect,
        machine.Fetches frame callers instruction operation effect := by
  rcases endsAt_or_fetches_or_fails running frames with ended | fetched | ⟨failure, fails, _⟩
  · exact Or.inl ended
  · exact Or.inr fetched
  · exact absurd (exited_of_finish (fails.symm.trans stepped)) (goesOn failure)

theorem advances_of_leave {machine after : Machine} {frame : Frame} {callers : List Frame}
    (frames : machine.frames = frame :: callers)
    (ended : machine.program.EndsAt frame.source frame.position)
    (left : machine.leave frame callers = (.continued, after)) : machine.Advances after := by
  unfold leave at left
  split at left
  · rename_i full
    split at left
    · exact absurd (exited_of_finish left) (by simp)
    · cases left
      exact .leave frames ended full
  · exact absurd (exited_of_finish left) (by simp)

theorem advances_of_follow {machine after : Machine} {frame : Frame} {callers : List Frame}
    {instruction : Instruction} {operation : Operation} {effect : Effect}
    (fetches : machine.Fetches frame callers instruction operation effect)
    (followed : machine.follow frame callers instruction
      (machine.perform frame operation instruction.operand) = (.continued, after)) :
    machine.Advances after := by
  cases control : machine.perform frame operation instruction.operand with
  | next stack =>
      rw [control] at followed
      cases followed
      have plain : operation ≠ .call := by
        rintro rfl
        simp only [perform, enter] at control
        repeat' split at control
        all_goals simp at control
      exact .run fetches plain (admitsOperand_of_perform control)
        (exchanges_of_perform fetches.described control)
  | call callee =>
      rw [control] at followed
      cases followed
      cases eq_call_of_perform control
      simp only [perform, enter] at control
      split at control
      · rename_i order
        split at control
        · cases control
          have described := fetches.described
          cases described
          exact .enter fetches rfl order.1 order.2
        · simp at control
      · simp at control
  | trap =>
      rw [control] at followed
      simp [follow] at followed
  | halt stack failure =>
      rw [control] at followed
      exact absurd (exited_of_finish followed) (by simp)

/-- A step of the machine by itself that goes on. -/
theorem advances_of_step {machine after : Machine} {frame : Frame} {callers : List Frame}
    (running : machine.status = none) (frames : machine.frames = frame :: callers)
    (stepped : machine.step = (.continued, after)) : machine.Advances after := by
  rcases endsAt_or_fetches_of_step running frames stepped (by simp) with
    ended | ⟨instruction, operation, effect, fetches⟩
  · rw [step_of_endsAt running frames ended] at stepped
    exact advances_of_leave frames ended stepped
  · rw [step_of_fetches running fetches] at stepped
    exact advances_of_follow fetches stepped

theorem of_perform_eq_trap {machine : Machine} {frame : Frame} {operation : Operation}
    {operand : UInt8} (performed : machine.perform frame operation operand = .trap) :
    operation = .debug ∨ operation = .get ∨ operation = .set := by
  unfold perform pushing enter require reducing at performed
  cases operation <;> simp only [reduceCtorEq, or_true, true_or, or_self] at performed ⊢ <;>
    (repeat' split at performed) <;> simp at performed

/-- A step that traps stands behind an instruction of the host and has changed nothing else. -/
theorem fetches_of_trapped {machine after : Machine} {frame : Frame} {callers : List Frame}
    {instruction : Instruction} (running : machine.status = none)
    (frames : machine.frames = frame :: callers)
    (stepped : machine.step = (.trapped instruction, after)) :
    ∃ operation effect, machine.Fetches frame callers instruction operation effect ∧
      (operation = .debug ∨ operation = .get ∨ operation = .set) ∧
      after = { machine with frames := frame.advance :: callers } := by
  rcases endsAt_or_fetches_of_step running frames stepped (by simp) with
    ended | ⟨fetched, operation, effect, fetches⟩
  · rw [step_of_endsAt running frames ended] at stepped
    simp only [leave, finish] at stepped
    repeat' split at stepped
    all_goals simp at stepped
  · rw [step_of_fetches running fetches] at stepped
    cases control : machine.perform frame operation fetched.operand with
    | next stack => simp [control, follow] at stepped
    | call callee => simp [control, follow] at stepped
    | trap =>
        rw [control] at stepped
        cases stepped
        exact ⟨operation, effect, fetches, of_perform_eq_trap control, rfl⟩
    | halt stack failure => simp [control, follow, finish] at stepped

theorem Advances.program_eq {machine after : Machine} (advances : machine.Advances after) :
    after.program = machine.program := by
  cases advances <;> rfl

theorem Advances.context_eq {machine after : Machine} (advances : machine.Advances after) :
    after.context = machine.context := by
  cases advances <;> rfl

theorem Advances.layout_eq {machine after : Machine} (advances : machine.Advances after) :
    after.layout = machine.layout := by
  cases advances <;> rfl

theorem Advances.status_eq {machine after : Machine} (advances : machine.Advances after) :
    after.status = machine.status := by
  cases advances <;> rfl

theorem Advances.frames_ne_nil {machine after : Machine} (advances : machine.Advances after) :
    after.frames ≠ [] := by
  cases advances <;> simp

theorem inspect?_of_fetches {machine : Machine} {frame : Frame} {callers : List Frame}
    {instruction : Instruction} {operation : Operation} {effect : Effect}
    (running : machine.status = none)
    (fetches : machine.Fetches frame callers instruction operation effect) :
    machine.inspect? = some instruction := by
  rcases fetches.held with ⟨code, found, held⟩
  simp [inspect?, running, fetches.frames, found, held]

theorem holds_of_inspect? {machine : Machine} {instruction : Instruction}
    (inspected : machine.inspect? = some instruction) :
    ∃ frame callers, machine.frames = frame :: callers ∧
      machine.program.Holds frame.source frame.position instruction := by
  unfold inspect? at inspected
  split at inspected
  · rename_i frame callers _ frames
    split at inspected
    · rename_i code found
      exact ⟨frame, callers, frames, code, found, inspected⟩
    · simp at inspected
  · simp at inspected

theorem inspect?_of_endsAt {machine : Machine} {frame : Frame} {callers : List Frame}
    (frames : machine.frames = frame :: callers)
    (ended : machine.program.EndsAt frame.source frame.position) : machine.inspect? = none := by
  cases inspected : machine.inspect? with
  | none => rfl
  | some instruction =>
      rcases holds_of_inspect? inspected with ⟨frame', callers', frames', held⟩
      cases frames.symm.trans frames'
      exact absurd held ended.not_holds

/-- The instructions that the open frames still have before them, in the order of the run. -/
def ahead (machine : Machine) : List Instruction :=
  machine.frames.flatMap fun frame => machine.program.unfold frame.source frame.position

@[simp]
theorem ahead_start (program : Program) (context : Context) (source outputs stackLimit : Nat)
    (layout : Layout) :
    (start program context source outputs stackLimit layout).ahead = program.unfold source 0 := by
  simp [ahead, start]

theorem mem_ahead_of_inspect? {machine : Machine} {instruction : Instruction}
    (inspected : machine.inspect? = some instruction) : instruction ∈ machine.ahead := by
  rcases holds_of_inspect? inspected with ⟨frame, callers, frames, code, found, held⟩
  simp [ahead, frames, Program.unfold_of_instruction? found held]

/-- A step that goes on takes the instruction it runs, if any, from those that are ahead. -/
theorem Advances.ahead_eq {machine after : Machine} (running : machine.status = none)
    (advances : machine.Advances after) :
    machine.ahead = machine.inspect?.toList ++ after.ahead := by
  cases advances with
  | run fetches plain admitted exchanges =>
      rename_i frame callers instruction operation effect stack
      rcases fetches.held with ⟨code, found, held⟩
      have noCall := Instruction.call?_of_plain fetches.assigned plain
      rw [inspect?_of_fetches running fetches]
      simp [ahead, fetches.frames, Program.unfold_of_instruction? found held, Program.unfoldCall,
        noCall, Frame.advance]
  | enter fetches named later present =>
      rename_i frame callers instruction call
      rcases fetches.held with ⟨code, found, held⟩
      have isCall := Instruction.call?_of_call fetches.assigned
      rw [named] at isCall
      rw [inspect?_of_fetches running fetches]
      simp [ahead, fetches.frames, Program.unfold_of_instruction? found held, Program.unfoldCall,
        isCall, later, present, Frame.advance]
  | leave frames ended full =>
      rw [inspect?_of_endsAt frames ended]
      rcases ended with ⟨code, found, atEnd⟩
      have missing : code.instruction? code.size = none := by
        simp [Code.instruction?]
      simp [ahead, frames, atEnd, Program.unfold_of_instruction?_eq_none found missing]

end Machine

namespace Evaluation

variable {σ : Type} {host : Host σ}

/-- An evaluation in the middle of a run: nothing has ended and a frame is open. -/
structure Running (evaluation : Evaluation) : Prop where
  status : evaluation.status = none
  machine : evaluation.machine.status = none
  framed : evaluation.machine.frames ≠ []

theorem running_start (program : Program) (context : Context) (source outputs stackLimit : Nat)
    (layout : Layout) (space : Word) :
    (start (.start program context source outputs stackLimit layout) space).Running :=
  ⟨rfl, rfl, by simp [start, Machine.start]⟩

/-- A step that is not refused by the host is a step of the machine. -/
theorem proceed_of_step {evaluation after : Evaluation} {state state' : σ} {exit? : Option Exit}
    (running : evaluation.Running)
    (stepped : evaluation.step host state = (exit?, after, state'))
    (notFailed : ∀ failure, exit? ≠ some (.failed failure)) :
    ∃ permitted, evaluation.proceed host permitted = (exit?, after, state') := by
  unfold step at stepped
  split at stepped
  rename_i admitted permitted admission
  rcases permit_cases admission with rfl | ⟨failure, rfl⟩
  · simp only [running.status] at stepped
    exact ⟨permitted, stepped⟩
  · simp only [exit, Prod.mk.injEq] at stepped
    exact absurd stepped.1.symm (notFailed failure)

/-- The machine hands an instruction over only with the values of its effect in the frame. -/
theorem resolves_of_trapped {evaluation after : Evaluation} {state state' : σ}
    {instruction : Instruction} {machine : Machine} {result : Except Failure Unit}
    (running : evaluation.Running)
    (stepped : evaluation.machine.step = (.trapped instruction, machine))
    (resolved : { evaluation with machine }.resolve host instruction state =
      (result, after, state')) :
    ∃ frame callers operation effect,
      evaluation.machine.Fetches frame callers instruction operation effect ∧
      (operation = .debug ∨ operation = .get ∨ operation = .set) ∧
      machine = { evaluation.machine with frames := frame.advance :: callers } ∧
      { evaluation with machine }.Resolves host state instruction result after state' := by
  rcases List.exists_cons_of_ne_nil running.framed with ⟨frame, callers, frames⟩
  rcases Machine.fetches_of_trapped running.machine frames stepped with
    ⟨operation, effect, fetches, ofHost, rfl⟩
  refine ⟨frame, callers, operation, effect, fetches, ofHost, rfl, ?_⟩
  apply resolves_of_resolve fetches.assigned ofHost fetches.described _ resolved
  exact Nat.le_trans fetches.enough (Nat.sub_le _ _)

/-- An evaluation that goes on moves its machine on, whatever its host did. -/
theorem advances_of_step {evaluation after : Evaluation} {state state' : σ}
    (running : evaluation.Running)
    (stepped : evaluation.step host state = (none, after, state')) :
    evaluation.machine.Advances after.machine ∧ after.status = none ∧
      after.space = evaluation.space := by
  rcases proceed_of_step running stepped (by simp) with ⟨permitted, proceeded⟩
  rcases List.exists_cons_of_ne_nil running.framed with ⟨frame, callers, frames⟩
  unfold proceed at proceeded
  split at proceeded
  · rename_i machine machineStepped
    cases proceeded
    exact ⟨Machine.advances_of_step running.machine frames machineStepped, running.status, rfl⟩
  · simp at proceeded
  · rename_i instruction machine machineStepped
    split at proceeded
    · rename_i resolved
      cases proceeded
      rcases resolves_of_trapped running machineStepped resolved with
        ⟨frame, callers, operation, effect, fetches, ofHost, rfl, resolves⟩
      rcases resolves.exchanges fetches.assigned fetches.described with ⟨stack, rfl, exchanges⟩
      refine ⟨.run fetches ?_ ?_ exchanges, running.status, rfl⟩
      · rintro rfl
        simp at ofHost
      · rcases ofHost with rfl | rfl | rfl <;> rfl
    · simp at proceeded

theorem running_of_step {evaluation after : Evaluation} {state state' : σ}
    (running : evaluation.Running)
    (stepped : evaluation.step host state = (none, after, state')) : after.Running := by
  rcases advances_of_step running stepped with ⟨advances, status, _⟩
  exact ⟨status, advances.status_eq.trans running.machine, advances.frames_ne_nil⟩

/-- A run stops where its only open frame ends with as many values as were declared. -/
theorem endsAt_of_stopped {evaluation after : Evaluation} {state state' : σ}
    (running : evaluation.Running)
    (stepped : evaluation.step host state = (some .stopped, after, state')) :
    ∃ frame, evaluation.machine.frames = [frame] ∧
      evaluation.machine.program.EndsAt frame.source frame.position ∧
      evaluation.machine.stack.size - frame.base = frame.outputs ∧
      after.machine.stack = evaluation.machine.stack := by
  rcases proceed_of_step running stepped (by simp) with ⟨permitted, proceeded⟩
  rcases List.exists_cons_of_ne_nil running.framed with ⟨frame, callers, frames⟩
  unfold proceed at proceeded
  split at proceeded
  · simp at proceeded
  · rename_i exit machine machineStepped
    cases proceeded
    rcases Machine.endsAt_or_fetches_of_step running.machine frames machineStepped (by simp) with
      ended | ⟨instruction, operation, effect, fetches⟩
    · rw [Machine.step_of_endsAt running.machine frames ended] at machineStepped
      unfold Machine.leave at machineStepped
      split at machineStepped
      · rename_i full
        split at machineStepped
        · cases machineStepped
          exact ⟨frame, frames, ended, full, rfl⟩
        · simp at machineStepped
      · simp [Machine.finish] at machineStepped
    · rw [Machine.step_of_fetches running.machine fetches] at machineStepped
      unfold Machine.follow at machineStepped
      split at machineStepped <;> simp [Machine.finish] at machineStepped
  · split at proceeded <;> simp at proceeded

/-- What every step keeps until the last one settles holds of the end of the run. -/
theorem run_induction (going : Evaluation → σ → Prop) (settled : Exit → Evaluation → σ → Prop)
    (goesOn : ∀ {evaluation after : Evaluation} {state state' : σ}, going evaluation state →
      evaluation.step host state = (none, after, state') → going after state')
    (ends : ∀ {evaluation after : Evaluation} {state state' : σ} {exit : Exit},
      going evaluation state →
      evaluation.step host state = (some exit, after, state') → settled exit after state')
    {evaluation after : Evaluation} {state state' : σ} {exit : Exit}
    (started : going evaluation state)
    (ran : evaluation.run host state = (exit, after, state')) : settled exit after state' := by
  induction evaluation, state using run.induct host with
  | case1 evaluation state stepped exit' ended =>
      rw [run_of_some ended, Prod.mk.injEq] at ran
      rcases ran with ⟨rfl, rest⟩
      exact ends started (Prod.ext ended rest)
  | case2 evaluation state stepped continues ih =>
      rw [run_of_none continues] at ran
      exact ih (goesOn started (Prod.ext continues rfl)) ran

/-- The end of a run, if it comes within the given number of steps. -/
def runFor (host : Host σ) : Nat → Evaluation → σ → Option (Exit × Evaluation × σ)
  | 0, _, _ => none
  | steps + 1, evaluation, state =>
      match evaluation.step host state with
      | (some exit, rest) => some (exit, rest)
      | (none, after, state') => runFor host steps after state'

theorem run_of_runFor {steps : Nat} {evaluation : Evaluation} {state : σ}
    {ended : Exit × Evaluation × σ} (ran : runFor host steps evaluation state = some ended) :
    evaluation.run host state = ended := by
  induction steps generalizing evaluation state with
  | zero => simp [runFor] at ran
  | succ steps ih =>
      rw [runFor] at ran
      split at ran
      · rename_i stepped
        rw [run_of_some (by rw [stepped]), stepped]
        exact Option.some.inj ran
      · rename_i stepped
        rw [run_of_none (by rw [stepped]), stepped]
        exact ih ran

end Evaluation

end StackCert
