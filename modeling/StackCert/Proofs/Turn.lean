import StackCert.Proofs.Advance
import StackCert.Proofs.Halting

/-!
# What a step makes of a machine

`Machine.Advances` lists the steps after which a run goes on. Here the others are
added. A machine that fails by itself stays as it is, but for the condition that
a failed test has taken from the stack (`Machine.Breaks`). A host that refuses to
resolve an instruction leaves the machine behind that instruction and without
some of the values that it takes. `Machine.Turns` puts all cases together, so that
what holds at every moment of a run, also after its end, is proved once for each
of them (`Evaluation.after_induction`).
-/

namespace StackCert

namespace Machine

/-- How a machine fails by itself. -/
inductive Breaks (machine : Machine) (failure : Failure) : Machine → Prop where
  /-- Nothing but the status has changed. -/
  | still : Breaks machine failure (machine.exit (.failed failure))
  /-- The condition that did not hold was taken from the stack. -/
  | condition {frame : Frame} {callers : List Frame} {instruction : Instruction} {below : Stack}
      (fetches : machine.Fetches frame callers instruction .ensure ⟨1, 0⟩)
      (popped : machine.stack.pop = .ok (0, below)) :
      Breaks machine failure ({ machine with stack := below }.exit (.failed failure))

/-- What a step of an evaluation makes of its machine, with the exit that it returns. -/
inductive Turns (machine : Machine) : Option Exit → Machine → Prop where
  | advanced {after : Machine} (advances : machine.Advances after) : Turns machine none after
  /-- The entry source has ended with as many values as were declared. -/
  | stopped {frame : Frame} (frames : machine.frames = [frame])
      (ended : machine.program.EndsAt frame.source frame.position)
      (full : machine.stack.size - frame.base = frame.outputs) :
      Turns machine (some .stopped) ({ machine with frames := [] }.exit .stopped)
  | broken {after : Machine} {failure : Failure} (breaks : machine.Breaks failure after) :
      Turns machine (some (.failed failure)) after
  /-- The host has refused an instruction after some of its values were taken. -/
  | refused {frame : Frame} {callers : List Frame} {instruction : Instruction}
      {operation : Operation} {effect : Effect} {stack : Stack} {taken : Nat} {failure : Failure}
      (fetches : machine.Fetches frame callers instruction operation effect)
      (within : taken ≤ effect.pops) (took : machine.stack.Exchanges stack ⟨taken, 0⟩) :
      Turns machine (some (.failed failure))
        ({ machine with frames := frame.advance :: callers, stack }.exit (.failed failure))

theorem eq_of_pushing_eq_halt {stack after : Stack} {value : Except Failure Word}
    {failure : Failure} (halted : pushing stack value = .halt after failure) : after = stack := by
  unfold pushing at halted
  split at halted
  · cases halted
    rfl
  · split at halted
    · cases halted
      rfl
    · simp at halted

/-- An operation that ends the run leaves the stack alone, or it has taken a condition. -/
theorem stack_of_perform_eq_halt {machine : Machine} {frame : Frame} {operation : Operation}
    {operand : UInt8} {after : Stack} {failure : Failure}
    (halted : machine.perform frame operation operand = .halt after failure) :
    after = machine.stack ∨ (operation = .ensure ∧ machine.stack.pop = .ok (0, after)) := by
  cases operation with
  | constant => exact Or.inl (eq_of_pushing_eq_halt halted)
  | stack => exact Or.inl (eq_of_pushing_eq_halt halted)
  | context => exact Or.inl (eq_of_pushing_eq_halt halted)
  | call =>
      simp only [perform, enter] at halted
      left
      split at halted
      · split at halted
        · simp at halted
        · cases halted
          rfl
      · cases halted
        rfl
  | debug | get | set => simp [perform] at halted
  | ensure =>
      simp only [perform, require] at halted
      split at halted
      · cases halted
        exact Or.inl rfl
      · rename_i condition below popped
        split at halted
        · rename_i isZero
          cases halted
          exact Or.inr ⟨rfl, isZero ▸ popped⟩
        · simp at halted
  | reduce reducer =>
      simp only [perform, reducing] at halted
      left
      split at halted
      · cases halted
        rfl
      · simp at halted

theorem breaks_of_follow {machine after : Machine} {frame : Frame} {callers : List Frame}
    {instruction : Instruction} {operation : Operation} {effect : Effect} {exit : Exit}
    (fetches : machine.Fetches frame callers instruction operation effect)
    (followed : machine.follow frame callers instruction
      (machine.perform frame operation instruction.operand) = (.exited exit, after)) :
    ∃ failure, exit = .failed failure ∧ machine.Breaks failure after := by
  cases control : machine.perform frame operation instruction.operand with
  | next | call | trap => simp [control, follow] at followed
  | halt stack failure =>
      rw [control] at followed
      cases followed
      refine ⟨failure, rfl, ?_⟩
      rcases stack_of_perform_eq_halt control with rfl | ⟨rfl, popped⟩
      · exact .still
      · have described := fetches.described
        cases described
        exact .condition fetches popped

theorem turns_of_leave {machine after : Machine} {frame : Frame} {callers : List Frame}
    {exit : Exit} (frames : machine.frames = frame :: callers)
    (ended : machine.program.EndsAt frame.source frame.position)
    (left : machine.leave frame callers = (.exited exit, after)) :
    machine.Turns (some exit) after := by
  unfold leave at left
  split at left
  · rename_i full
    split at left
    · cases left
      exact .stopped frames ended full
    · simp at left
  · cases left
    exact .broken .still

/-- A step that exits has stopped the run, or the machine has failed by itself. -/
theorem turns_of_exited {machine after : Machine} {exit : Exit} (running : machine.status = none)
    (framed : machine.frames ≠ []) (stepped : machine.step = (.exited exit, after)) :
    machine.Turns (some exit) after := by
  rcases List.exists_cons_of_ne_nil framed with ⟨frame, callers, frames⟩
  rcases endsAt_or_fetches_or_fails running frames with
    ended | ⟨instruction, operation, effect, fetches⟩ | ⟨failure, fails, _⟩
  · rw [step_of_endsAt running frames ended] at stepped
    exact turns_of_leave frames ended stepped
  · rw [step_of_fetches running fetches] at stepped
    rcases breaks_of_follow fetches stepped with ⟨failure, rfl, breaks⟩
    exact .broken breaks
  · rw [fails] at stepped
    cases stepped
    exact .broken .still

/-- A machine keeps the exit that a step returns. -/
theorem Turns.status_eq {machine after : Machine} {exit? : Option Exit}
    (running : machine.status = none) (turns : machine.Turns exit? after) :
    after.status = exit? := by
  cases turns with
  | advanced advances => exact advances.status_eq.trans running
  | stopped => rfl
  | broken breaks => cases breaks <;> rfl
  | refused => rfl

theorem Turns.program_eq {machine after : Machine} {exit? : Option Exit}
    (turns : machine.Turns exit? after) : after.program = machine.program := by
  cases turns with
  | advanced advances => cases advances <;> rfl
  | stopped => rfl
  | broken breaks => cases breaks <;> rfl
  | refused => rfl

theorem Turns.context_eq {machine after : Machine} {exit? : Option Exit}
    (turns : machine.Turns exit? after) : after.context = machine.context := by
  cases turns with
  | advanced advances => exact advances.context_eq
  | stopped => rfl
  | broken breaks => cases breaks <;> rfl
  | refused => rfl

theorem Turns.layout_eq {machine after : Machine} {exit? : Option Exit}
    (turns : machine.Turns exit? after) : after.layout = machine.layout := by
  cases turns with
  | advanced advances => exact advances.layout_eq
  | stopped => rfl
  | broken breaks => cases breaks <;> rfl
  | refused => rfl

theorem Turns.limit_eq {machine after : Machine} {exit? : Option Exit}
    (turns : machine.Turns exit? after) : after.stack.limit = machine.stack.limit := by
  cases turns with
  | advanced advances =>
      cases advances with
      | run fetches plain admitted exchanges => exact exchanges.limit
      | enter => rfl
      | leave => rfl
  | stopped => rfl
  | broken breaks =>
      cases breaks with
      | still => rfl
      | condition fetches popped => exact (Stack.exchanges_of_pop popped).limit
  | refused fetches within took => exact took.limit

end Machine

namespace Evaluation

variable {σ : Type} {host : Host σ} {evaluation after : Evaluation} {state state' : σ}

theorem turns_of_proceed {exit : Exit} (running : evaluation.Running)
    (proceeded : evaluation.proceed host state = (some exit, after, state')) :
    evaluation.machine.Turns (some exit) after.machine ∧ after.status = some exit := by
  unfold proceed at proceeded
  split at proceeded
  · simp at proceeded
  · rename_i stepped
    cases proceeded
    exact ⟨Machine.turns_of_exited running.machine running.framed stepped, rfl⟩
  · rename_i instruction machine stepped
    split at proceeded
    · simp at proceeded
    · rename_i resolved
      cases proceeded
      rcases resolves_of_trapped running stepped resolved with
        ⟨frame, callers, operation, effect, fetches, _, rfl, resolves⟩
      rcases resolves.took fetches.assigned fetches.described with
        ⟨stack, rfl, taken, within, took⟩
      exact ⟨.refused fetches within took, rfl⟩

/-- Every step of a running evaluation is one of these turns, and its exit is kept. -/
theorem turns_of_step {exit? : Option Exit} (running : evaluation.Running)
    (stepped : evaluation.step host state = (exit?, after, state')) :
    evaluation.machine.Turns exit? after.machine ∧ after.status = exit? := by
  cases exit? with
  | none =>
      rcases advances_of_step running stepped with ⟨advances, status, _⟩
      exact ⟨.advanced advances, status⟩
  | some exit =>
      unfold step at stepped
      split at stepped
      rename_i admission
      rcases permit_cases admission with rfl | ⟨failure, rfl⟩
      · simp only [running.status] at stepped
        exact turns_of_proceed running stepped
      · cases stepped
        exact ⟨.broken .still, rfl⟩

/-- An evaluation that has come to an exit, and its machine with it. -/
structure Ended (evaluation : Evaluation) (exit : Exit) : Prop where
  status : evaluation.status = some exit
  machine : evaluation.machine.status = some exit

theorem Ended.inspect?_eq_none {exit : Exit} (ended : evaluation.Ended exit) :
    evaluation.machine.inspect? = none := by
  simp [Machine.inspect?, ended.machine]

theorem Ended.step_machine {exit : Exit} (ended : evaluation.Ended exit) :
    evaluation.machine.step = (.exited exit, evaluation.machine) := by
  simp [Machine.step, ended.machine]

/-- An evaluation that has ended is not changed by further steps. -/
theorem step_of_ended {exit : Exit} (ended : evaluation.Ended exit) :
    evaluation.step host state = (some exit, evaluation, state) := by
  simp only [step, permit, ended.inspect?_eq_none, ended.status]

/-- At any moment an evaluation still runs, in its space, or has ended with its machine. -/
theorem running_or_ended_after (host : Host σ) (state : σ) (running : evaluation.Running)
    (steps : Nat) :
    let now := (evaluation.after host state steps).1
    (now.Running ∧ now.space = evaluation.space) ∨ ∃ exit, now.Ended exit := by
  induction steps with
  | zero => exact Or.inl ⟨running, rfl⟩
  | succ steps ih =>
      rw [after]
      generalize evaluation.after host state steps = before at ih
      rcases ih with ⟨runs, owned⟩ | ⟨exit, ended⟩
      · rcases stepped : before.1.step host before.2 with ⟨exit?, next, state'⟩
        cases exit? with
        | none =>
            have sameSpace := (advances_of_step runs stepped).2.2
            exact Or.inl ⟨running_of_step runs stepped, sameSpace.trans owned⟩
        | some exit =>
            rcases turns_of_step runs stepped with ⟨turns, status⟩
            exact Or.inr ⟨exit, status, turns.status_eq runs.machine⟩
      · simp only [step_of_ended ended]
        exact Or.inr ⟨exit, ended⟩

/-- An evaluation runs as long as its steps return no exit. -/
theorem running_after (running : evaluation.Running) {steps : Nat}
    (goesOn : ∀ earlier < steps, (evaluation.stepAfter host state earlier).1 = none) :
    (evaluation.after host state steps).1.Running :=
  kept_after (fun evaluation _ => evaluation.Running) running_of_step running goesOn

/-- Nothing happens after the end. -/
theorem after_of_ended {steps later : Nat} {exit : Exit}
    (ended : (evaluation.after host state steps).1.Ended exit) (isLater : steps ≤ later) :
    evaluation.after host state later = evaluation.after host state steps := by
  induction isLater with
  | refl => rfl
  | step _ ih =>
      rw [after, ih]
      simp only [step_of_ended ended]

/-- A run comes to the end of its evaluation after a number of steps. -/
theorem ended_of_run (host : Host σ) (state : σ) (running : evaluation.Running) :
    ∃ count, evaluation.run host state =
        ((evaluation.run host state).1, evaluation.after host state (count + 1)) ∧
      (evaluation.after host state (count + 1)).1.Ended (evaluation.run host state).1 := by
  rcases exists_last_step host evaluation state with ⟨count, _, exit, before, last, ran⟩
  have runs := running_after running before
  rcases turns_of_step runs (Prod.ext last rfl) with ⟨turns, status⟩
  rw [ran]
  exact ⟨count, rfl, status, turns.status_eq runs.machine⟩

theorem status_run (host : Host σ) (state : σ)
    (moment : evaluation.Running ∨ ∃ exit, evaluation.Ended exit) :
    (evaluation.run host state).2.1.status ≠ none := by
  rcases moment with running | ⟨exit, ended⟩
  · rcases ended_of_run host state running with ⟨count, ran, endedThere⟩
    rw [ran, endedThere.status]
    exact Option.some_ne_none _
  · have stepped : evaluation.step host state = (some exit, evaluation, state) :=
      step_of_ended ended
    rw [run_of_some (congrArg Prod.fst stepped), stepped, ended.status]
    exact Option.some_ne_none _

theorem status_after_of_le {steps later : Nat} (running : evaluation.Running)
    (hasEnded : (evaluation.after host state steps).1.status ≠ none) (isLater : steps ≤ later) :
    (evaluation.after host state later).1.status ≠ none := by
  rcases running_or_ended_after host state running steps with ⟨runs, _⟩ | ⟨_, ended⟩
  · exact absurd runs.status hasEnded
  · rw [after_of_ended ended isLater]
    exact hasEnded

/-- Once it has a status, an evaluation is as its run leaves it. -/
theorem after_eq_run {steps : Nat} (running : evaluation.Running)
    (hasEnded : (evaluation.after host state steps).1.status ≠ none) :
    evaluation.after host state steps = (evaluation.run host state).2 ∧
      (evaluation.after host state steps).1.status = some (evaluation.run host state).1 := by
  rcases running_or_ended_after host state running steps with ⟨runs, _⟩ | ⟨_, ended⟩
  · exact absurd runs.status hasEnded
  rcases ended_of_run host state running with ⟨count, ran, endedThere⟩
  have sameMoment :
      evaluation.after host state steps = evaluation.after host state (count + 1) := by
    rcases Nat.le_total steps (count + 1) with isEarlier | isLater
    · exact (after_of_ended ended isEarlier).symm
    · exact after_of_ended endedThere isLater
  rw [sameMoment]
  exact ⟨(congrArg Prod.snd ran).symm, endedThere.status⟩

/-- What every turn of a run keeps holds after any number of steps. -/
theorem after_induction (kept : Machine → Prop)
    (keeps : ∀ {machine after : Machine} {exit? : Option Exit}, machine.status = none →
      machine.Turns exit? after → kept machine → kept after)
    (running : evaluation.Running) (started : kept evaluation.machine) (steps : Nat) :
    kept (evaluation.after host state steps).1.machine := by
  induction steps with
  | zero => exact started
  | succ steps ih =>
      have moment := running_or_ended_after host state running steps
      rw [after]
      generalize evaluation.after host state steps = before at ih moment
      rcases moment with ⟨runs, _⟩ | ⟨exit, ended⟩
      · exact keeps runs.machine (turns_of_step runs rfl).1 ih
      · simp only [step_of_ended ended]
        exact ih

theorem layout_after (host : Host σ) (state : σ) (running : evaluation.Running) (steps : Nat) :
    (evaluation.after host state steps).1.machine.layout = evaluation.machine.layout := by
  apply after_induction (fun machine => machine.layout = evaluation.machine.layout)
  · intro machine after exit? _ turns same
    exact turns.layout_eq.trans same
  · exact running
  · rfl

theorem limit_after (host : Host σ) (state : σ) (running : evaluation.Running) (steps : Nat) :
    (evaluation.after host state steps).1.machine.stack.limit =
      evaluation.machine.stack.limit := by
  apply after_induction (fun machine => machine.stack.limit = evaluation.machine.stack.limit)
  · intro machine after exit? _ turns same
    exact turns.limit_eq.trans same
  · exact running
  · rfl

end Evaluation

end StackCert
