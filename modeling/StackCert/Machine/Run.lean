import StackCert.Machine

/-!
# Runs end

Sources hold no jumps and calls go forward, so the instructions that the open
frames still have before them are finitely many: `Program.unfold` lists them.
Counting each of them twice and each open frame once gives `Machine.remaining`,
which every step lowers that does not end the run: an instruction is left
behind, a call turns one of its two counts into the frame it opens, and a frame
that is left takes its own count with it. A run is therefore defined without
further bounds, for programs that were never certified as well.
-/

namespace StackCert

namespace Frame

/-- A bound on the steps until the frame is left. -/
def remaining (program : Program) (frame : Frame) : Nat :=
  2 * (program.unfold frame.source frame.position).length + 1

end Frame

namespace Machine

/-- A bound on the steps until the run ends. -/
def remaining (machine : Machine) : Nat :=
  machine.frames.foldr (fun frame total => frame.remaining machine.program + total) 0

theorem advance_remaining {program : Program} {frame : Frame} {code : Code}
    {instruction : Instruction} (sourceFound : program.sources[frame.source]? = some code)
    (found : code.instruction? frame.position = some instruction) :
    frame.advance.remaining program +
        2 * (program.unfoldCall frame.source instruction).length + 2 =
      frame.remaining program := by
  simp only [Frame.remaining, Frame.advance, Program.unfold_of_instruction? sourceFound found,
    List.length_append, List.length_cons]
  omega

/-- Only a call opens a frame. -/
theorem eq_call_of_perform {machine : Machine} {frame callee : Frame} {operation : Operation}
    {operand : UInt8} (performed : machine.perform frame operation operand = .call callee) :
    operation = .call := by
  unfold perform pushing require reducing at performed
  cases operation <;> simp only [reduceCtorEq] at performed <;> first
    | rfl
    | (repeat' split at performed) <;> simp at performed

/-- A call is entered only if it is one of the calls that the unfolding follows. -/
theorem unfoldCall_of_perform {machine : Machine} {frame callee : Frame}
    {instruction : Instruction} {operation : Operation}
    (assigned : instruction.operation = .ok operation)
    (entered : machine.perform frame operation instruction.operand = .call callee) :
    machine.program.unfoldCall frame.source instruction =
      machine.program.unfold callee.source callee.position := by
  cases eq_call_of_perform entered
  have named := Instruction.call?_of_call assigned
  simp only [perform, enter] at entered
  split at entered
  · rename_i later
    split at entered
    · simp only [Control.call.injEq] at entered
      subst entered
      simp only [Program.unfoldCall, named, later, and_self, ↓reduceIte]
    · simp at entered
  · simp at entered

theorem exited_of_finish {machine after : Machine} {exit : Exit} {outcome : Outcome}
    (finished : machine.finish exit = (outcome, after)) : outcome = .exited exit := by
  cases finished
  rfl

/-- Running an instruction lowers the bound unless it ends the run. -/
theorem remaining_execute_lt {machine after : Machine} {frame : Frame} {callers : List Frame}
    {code : Code} {instruction : Instruction} {outcome : Outcome}
    (frames : machine.frames = frame :: callers)
    (sourceFound : machine.program.sources[frame.source]? = some code)
    (found : code.instruction? frame.position = some instruction)
    (executed : machine.execute frame callers instruction = (outcome, after))
    (goesOn : ∀ exit, outcome ≠ .exited exit) : after.remaining < machine.remaining := by
  have advanced := advance_remaining sourceFound found
  have before : machine.remaining = frame.remaining machine.program +
      callers.foldr (fun frame total => frame.remaining machine.program + total) 0 := by
    simp only [remaining, frames, List.foldr_cons]
  unfold execute at executed
  split at executed
  · exact absurd (exited_of_finish executed) (goesOn _)
  rename_i operation assigned
  split at executed
  · exact absurd (exited_of_finish executed) (goesOn _)
  split at executed
  · exact absurd (exited_of_finish executed) (goesOn _)
  cases control : machine.perform frame operation instruction.operand with
  | next stack =>
      rw [control] at executed
      cases executed
      simp only [remaining, List.foldr_cons] at before ⊢
      omega
  | call callee =>
      have followed := unfoldCall_of_perform assigned control
      have opened : callee.remaining machine.program =
          2 * (machine.program.unfold callee.source callee.position).length + 1 := rfl
      rw [followed] at advanced
      rw [control] at executed
      cases executed
      simp only [remaining, List.foldr_cons] at before ⊢
      omega
  | trap =>
      rw [control] at executed
      cases executed
      simp only [remaining, List.foldr_cons] at before ⊢
      omega
  | halt stack failure =>
      rw [control] at executed
      exact absurd (exited_of_finish executed) (goesOn _)

/-- Leaving a frame lowers the bound unless it ends the run. -/
theorem remaining_leave_lt {machine after : Machine} {frame : Frame} {callers : List Frame}
    {outcome : Outcome} (frames : machine.frames = frame :: callers)
    (left : machine.leave frame callers = (outcome, after))
    (goesOn : ∀ exit, outcome ≠ .exited exit) : after.remaining < machine.remaining := by
  unfold leave at left
  split at left
  · split at left
    · exact absurd (exited_of_finish left) (goesOn _)
    · cases left
      simp only [remaining, frames, List.foldr_cons, Frame.remaining]
      omega
  · exact absurd (exited_of_finish left) (goesOn _)

/-- Every step lowers the bound unless it ends the run. -/
theorem remaining_step_lt {machine after : Machine} {outcome : Outcome}
    (stepped : machine.step = (outcome, after)) (goesOn : ∀ exit, outcome ≠ .exited exit) :
    after.remaining < machine.remaining := by
  unfold step at stepped
  split at stepped
  · cases stepped
    exact absurd rfl (goesOn _)
  split at stepped
  · exact absurd (exited_of_finish stepped) (goesOn _)
  rename_i frame callers frames
  split at stepped
  · exact absurd (exited_of_finish stepped) (goesOn _)
  rename_i code sourceFound
  split at stepped
  · rename_i instruction found
    exact remaining_execute_lt frames sourceFound found stepped goesOn
  · split at stepped
    · exact remaining_leave_lt frames stepped goesOn
    · exact absurd (exited_of_finish stepped) (goesOn _)

theorem remaining_step_lt_of_continued {machine : Machine}
    (continued : machine.step.1 = .continued) :
    machine.step.2.remaining < machine.remaining := by
  cases stepped : machine.step with
  | mk outcome after =>
      rw [stepped] at continued
      cases continued
      exact remaining_step_lt stepped (by simp)

/-- Steps until the machine exits or traps. -/
def run (machine : Machine) : Outcome × Machine :=
  let stepped := machine.step
  if _ : stepped.1 = .continued then stepped.2.run else stepped
termination_by machine.remaining
decreasing_by exact remaining_step_lt_of_continued (by assumption)

theorem run_of_continued {machine : Machine} (continued : machine.step.1 = .continued) :
    machine.run = machine.step.2.run := by
  rw [run]
  simp [continued]

theorem run_of_not_continued {machine : Machine} (ended : machine.step.1 ≠ .continued) :
    machine.run = machine.step := by
  rw [run]
  simp [ended]

end Machine

end StackCert
