import StackCert.Proofs.Advance

/-!
# Balanced code

`Program.Passes` collects the tests that are made before an instruction is run.
`Program.Balanced` says, without running anything, that the code from a
position of a source on can be run to its end: entered with `height` values
above the base of its frame, it always finds the values it takes and the things
it names, it ends with `outputs` values, and `peak` is the highest height on the
way, the peaks of its calls included. A derivation follows the code, with one
more derivation for the callee at each call.

`Machine.Sustained` extends this to a machine in the middle of a run: the code
that every open frame has before it is balanced, starting from the values that
the frame will have when control comes back to it. A machine that moves on stays
sustained. Conversely a machine was sustained before a move if it is afterwards,
since the move itself passed the tests that the derivation asks for; here the
bounds are those of the context that is being read.
-/

namespace StackCert

namespace Program

/-- The instruction at a place passes the tests that are made before it is run. -/
structure Passes (program : Program) (bounds : Bounds) (source position height : Nat)
    (instruction : Instruction) (operation : Operation) (effect : Effect) : Prop where
  held : program.Holds source position instruction
  assigned : instruction.operation = .ok operation
  described : operation.effect instruction.operand = .ok effect
  enough : effect.pops ≤ height
  admitted : program.admitsOperand bounds height operation instruction.operand = true
  ordered : operation = .call →
    source < (CallOperand.ofByte instruction.operand).source ∧
      (CallOperand.ofByte instruction.operand).source < program.sources.size

theorem passes_call {program : Program} {bounds : Bounds} {source position height : Nat}
    {instruction : Instruction} {call : CallOperand}
    (held : program.Holds source position instruction)
    (assigned : instruction.operation = .ok .call)
    (named : CallOperand.ofByte instruction.operand = call) (enough : call.inputs ≤ height)
    (later : source < call.source) (present : call.source < program.sources.size) :
    program.Passes bounds source position height instruction .call
      ⟨call.inputs, call.outputs⟩ := by
  subst named
  exact ⟨held, assigned, rfl, enough, rfl, fun _ => ⟨later, present⟩⟩

/-- The code at a position can be run to its end from a given height. -/
inductive Balanced (program : Program) (bounds : Bounds) :
    (source position height outputs peak : Nat) → Prop where
  | finish {source position height : Nat} (ended : program.EndsAt source position) :
      Balanced program bounds source position height height height
  | run {source position height outputs peak : Nat} {instruction : Instruction}
      {operation : Operation} {effect : Effect}
      (held : program.Holds source position instruction)
      (assigned : instruction.operation = .ok operation)
      (plain : operation ≠ .call)
      (described : operation.effect instruction.operand = .ok effect)
      (enough : effect.pops ≤ height)
      (admitted : program.admitsOperand bounds height operation instruction.operand = true)
      (rest : Balanced program bounds source (position + Instruction.width)
        (height - effect.pops + effect.pushes) outputs peak) :
      Balanced program bounds source position height outputs (max height peak)
  | call {source position height outputs calleePeak peak : Nat} {instruction : Instruction}
      {call : CallOperand}
      (held : program.Holds source position instruction)
      (assigned : instruction.operation = .ok .call)
      (named : CallOperand.ofByte instruction.operand = call)
      (enough : call.inputs ≤ height)
      (later : source < call.source)
      (callee : Balanced program bounds call.source 0 call.inputs call.outputs calleePeak)
      (rest : Balanced program bounds source (position + Instruction.width)
        (height - call.inputs + call.outputs) outputs peak) :
      Balanced program bounds source position height outputs
        (max (height - call.inputs + calleePeak) peak)

namespace Balanced

variable {program : Program} {bounds : Bounds} {source position height outputs peak : Nat}

theorem of_endsAt (ended : program.EndsAt source position) (full : height = outputs) :
    program.Balanced bounds source position height outputs height := by
  subst full
  exact .finish ended

theorem height_le_peak
    (balanced : program.Balanced bounds source position height outputs peak) : height ≤ peak := by
  induction balanced with
  | finish ended => exact Nat.le_refl _
  | run => exact Nat.le_max_left _ _
  | call held assigned named enough later callee rest ihCallee ihRest =>
      apply Nat.le_trans _ (Nat.le_max_left _ _)
      omega

theorem exists_code
    (balanced : program.Balanced bounds source position height outputs peak) :
    ∃ code, program.sources[source]? = some code := by
  cases balanced with
  | finish ended => exact ended.imp fun _ => And.left
  | run held => exact held.imp fun _ => And.left
  | call held => exact held.imp fun _ => And.left

theorem source_lt_size
    (balanced : program.Balanced bounds source position height outputs peak) :
    source < program.sources.size := by
  rcases balanced.exists_code with ⟨code, found⟩
  exact (Array.getElem?_eq_some_iff.mp found).1

/-- Balanced code is at its end or has an instruction that passes. -/
theorem endsAt_or_passes (balanced : program.Balanced bounds source position height outputs peak) :
    program.EndsAt source position ∨ ∃ instruction operation effect,
      program.Passes bounds source position height instruction operation effect := by
  cases balanced with
  | finish ended => exact Or.inl ended
  | run held assigned plain described enough admitted rest =>
      refine Or.inr ⟨_, _, _, held, assigned, described, enough, admitted, ?_⟩
      intro isCall
      exact absurd isCall plain
  | call held assigned named enough later callee rest =>
      exact Or.inr ⟨_, _, _, passes_call held assigned named enough later callee.source_lt_size⟩

theorem eq_of_endsAt (balanced : program.Balanced bounds source position height outputs peak)
    (ended : program.EndsAt source position) : outputs = height ∧ peak = height := by
  cases balanced with
  | finish => exact ⟨rfl, rfl⟩
  | run held => exact absurd held ended.not_holds
  | call held => exact absurd held ended.not_holds

theorem rest_of_plain (balanced : program.Balanced bounds source position height outputs peak)
    {instruction : Instruction} {operation : Operation} {effect : Effect}
    (held : program.Holds source position instruction)
    (assigned : instruction.operation = .ok operation) (plain : operation ≠ .call)
    (described : operation.effect instruction.operand = .ok effect) :
    effect.pops ≤ height ∧
      program.admitsOperand bounds height operation instruction.operand = true ∧
      ∃ restPeak, peak = max height restPeak ∧
        program.Balanced bounds source (position + Instruction.width)
          (height - effect.pops + effect.pushes) outputs restPeak := by
  cases balanced with
  | finish ended => exact absurd held ended.not_holds
  | run held' assigned' plain' described' enough admitted rest =>
      cases held.unique held'
      cases assigned.symm.trans assigned'
      cases described.symm.trans described'
      exact ⟨enough, admitted, _, rfl, rest⟩
  | call held' assigned' =>
      cases held.unique held'
      cases assigned.symm.trans assigned'
      exact absurd rfl plain

theorem rest_of_call (balanced : program.Balanced bounds source position height outputs peak)
    {instruction : Instruction} {call : CallOperand}
    (held : program.Holds source position instruction)
    (assigned : instruction.operation = .ok .call)
    (named : CallOperand.ofByte instruction.operand = call) :
    call.inputs ≤ height ∧ source < call.source ∧
      ∃ calleePeak restPeak, peak = max (height - call.inputs + calleePeak) restPeak ∧
        program.Balanced bounds call.source 0 call.inputs call.outputs calleePeak ∧
        program.Balanced bounds source (position + Instruction.width)
          (height - call.inputs + call.outputs) outputs restPeak := by
  cases balanced with
  | finish ended => exact absurd held ended.not_holds
  | run held' assigned' plain =>
      cases held.unique held'
      cases assigned.symm.trans assigned'
      exact absurd rfl plain
  | call held' assigned' named' enough later callee rest =>
      cases held.unique held'
      cases named.symm.trans named'
      exact ⟨enough, later, _, _, rfl, callee, rest⟩

end Balanced

/--
The frames can all be run to their ends, the innermost first: from `size` values
on the stack, never with more than `limit` of them, and down to `total`.
-/
inductive Sustains (program : Program) (bounds : Bounds) (limit total : Nat) :
    Nat → List Frame → Prop where
  | done : Sustains program bounds limit total total []
  | frame {size peak : Nat} {frame : Frame} {callers : List Frame}
      (above : frame.base ≤ size)
      (balanced : program.Balanced bounds frame.source frame.position (size - frame.base)
        frame.outputs peak)
      (fits : frame.base + peak ≤ limit)
      (rest : Sustains program bounds limit total (frame.base + frame.outputs) callers) :
      Sustains program bounds limit total size (frame :: callers)

end Program

namespace Machine

theorem fetches_of_passes {machine : Machine} {bounds : Bounds} {frame : Frame}
    {callers : List Frame} {instruction : Instruction} {operation : Operation} {effect : Effect}
    (frames : machine.frames = frame :: callers)
    (passes : machine.program.Passes bounds frame.source frame.position
      (machine.stack.size - frame.base) instruction operation effect) :
    machine.Fetches frame callers instruction operation effect :=
  ⟨frames, passes.held, passes.assigned, passes.described, passes.enough⟩

/-- The open frames can all be run to their ends and leave `total` values. -/
def Sustained (machine : Machine) (bounds : Bounds) (total : Nat) : Prop :=
  machine.program.Sustains bounds machine.stack.limit total machine.stack.size machine.frames

/-- The innermost frame of a sustained machine is at its end or has an instruction that passes. -/
theorem Sustained.endsAt_or_passes {machine : Machine} {bounds : Bounds} {total : Nat}
    {frame : Frame} {callers : List Frame} (sustained : machine.Sustained bounds total)
    (frames : machine.frames = frame :: callers) :
    machine.program.EndsAt frame.source frame.position ∨ ∃ instruction operation effect,
      machine.program.Passes bounds frame.source frame.position
        (machine.stack.size - frame.base) instruction operation effect := by
  rw [Sustained, frames] at sustained
  cases sustained with
  | frame above balanced => exact balanced.endsAt_or_passes

/-- A machine that has not moved yet is sustained exactly if its source is balanced. -/
theorem sustained_start_iff {program : Program} {context : Context} {bounds : Bounds}
    {source outputs stackLimit total : Nat} {layout : Layout} :
    (start program context source outputs stackLimit layout).Sustained bounds total ↔
      total = outputs ∧ ∃ peak ≤ stackLimit, program.Balanced bounds source 0 0 outputs peak := by
  constructor
  · intro sustained
    cases sustained with
    | frame above balanced fits rest =>
        rename_i peak
        cases rest
        refine ⟨Nat.zero_add outputs, peak, ?_, balanced⟩
        simpa [start, Stack.empty] using fits
  · rintro ⟨rfl, peak, fits, balanced⟩
    refine .frame (Nat.zero_le _) balanced ?_ ?_
    · simpa [start, Stack.empty] using fits
    · simpa using Program.Sustains.done

/-- A machine that moves on stays sustained. -/
theorem Sustained.of_advances {machine after : Machine} {bounds : Bounds} {total : Nat}
    (sustained : machine.Sustained bounds total) (advances : machine.Advances after) :
    after.Sustained bounds total := by
  simp only [Sustained] at sustained ⊢
  cases advances with
  | run fetches plain admitted exchanges =>
      rename_i frame callers instruction operation effect stack
      rw [fetches.frames] at sustained
      have enough := fetches.enough
      have size := exchanges.size
      rw [exchanges.limit]
      cases sustained with
      | frame above balanced fits rest =>
          rcases balanced.rest_of_plain fetches.held fetches.assigned plain fetches.described with
            ⟨_, _, restPeak, rfl, restBalanced⟩
          have height : stack.size - frame.base =
              machine.stack.size - frame.base - effect.pops + effect.pushes := by omega
          have afterAbove : frame.base ≤ stack.size := by omega
          have afterFits : frame.base + restPeak ≤ machine.stack.limit := by omega
          rw [← height] at restBalanced
          exact .frame afterAbove restBalanced afterFits rest
  | enter fetches named later present =>
      rename_i frame callers instruction call
      rw [fetches.frames] at sustained
      have enough := fetches.enough
      simp only at enough
      cases sustained with
      | frame above balanced fits rest =>
          rcases balanced.rest_of_call fetches.held fetches.assigned named with
            ⟨_, _, calleePeak, restPeak, rfl, calleeBalanced, restBalanced⟩
          -- The callee starts below its inputs; its caller goes on above its outputs.
          have calleeHeight :
              machine.stack.size - (machine.stack.size - call.inputs) = call.inputs := by omega
          have calleeFits :
              machine.stack.size - call.inputs + calleePeak ≤ machine.stack.limit := by omega
          have height : machine.stack.size - call.inputs + call.outputs - frame.base =
              machine.stack.size - frame.base - call.inputs + call.outputs := by omega
          have callerAbove :
              frame.base ≤ machine.stack.size - call.inputs + call.outputs := by omega
          have callerFits : frame.base + restPeak ≤ machine.stack.limit := by omega
          rw [← calleeHeight] at calleeBalanced
          rw [← height] at restBalanced
          exact .frame (Nat.sub_le _ _) calleeBalanced calleeFits
            (.frame callerAbove restBalanced callerFits rest)
  | leave frames ended full =>
      rename_i frame caller callers
      rw [frames] at sustained
      cases sustained with
      | frame above balanced fits rest =>
          rw [show frame.base + frame.outputs = machine.stack.size by omega] at rest
          exact rest

/-- Each frame's values start no deeper than those of its caller. -/
def nestedFrom : Nat → List Frame → Prop
  | _, [] => True
  | size, frame :: callers => frame.base ≤ size ∧ nestedFrom frame.base callers

/-- No frame starts above the stack and none below its caller. -/
def Nested (machine : Machine) : Prop := nestedFrom machine.stack.size machine.frames

theorem Nested.of_advances {machine after : Machine} (nested : machine.Nested)
    (advances : machine.Advances after) : after.Nested := by
  simp only [Nested] at nested ⊢
  cases advances with
  | run fetches plain admitted exchanges =>
      rw [fetches.frames] at nested
      have enough := fetches.enough
      have size := exchanges.size
      refine ⟨?_, nested.2⟩
      have above := nested.1
      simp only [Frame.advance]
      omega
  | enter fetches named later present =>
      rw [fetches.frames] at nested
      have enough := fetches.enough
      have above := nested.1
      refine ⟨Nat.sub_le _ _, ?_, nested.2⟩
      simp only [Frame.advance] at enough ⊢
      omega
  | leave frames ended full =>
      rw [frames] at nested
      rcases nested with ⟨above, callerAbove, deeper⟩
      exact ⟨Nat.le_trans callerAbove above, deeper⟩

/-- A machine was sustained before a move if it is sustained afterwards. -/
theorem Sustained.before_advances {machine after : Machine} {total : Nat}
    (nested : machine.Nested) (advances : machine.Advances after)
    (sustained : after.Sustained machine.context.bounds total) :
    machine.Sustained machine.context.bounds total := by
  have sizeFits : machine.stack.size ≤ machine.stack.limit := machine.stack.size_le_limit
  simp only [Sustained] at sustained ⊢
  unfold Nested at nested
  cases advances with
  | run fetches plain admitted exchanges =>
      rename_i frame callers instruction operation effect stack
      rw [fetches.frames] at nested ⊢
      have above := nested.1
      have enough := fetches.enough
      have size := exchanges.size
      rw [exchanges.limit] at sustained
      cases sustained with
      | frame afterAbove balanced fits rest =>
          rename_i peak
          simp only [Frame.advance] at balanced fits rest
          have height : stack.size - frame.base =
              machine.stack.size - frame.base - effect.pops + effect.pushes := by omega
          rw [height] at balanced
          refine .frame above (.run fetches.held fetches.assigned plain fetches.described enough
            admitted balanced) ?_ rest
          omega
  | enter fetches named later present =>
      rename_i frame callers instruction call
      rw [fetches.frames] at nested ⊢
      have above := nested.1
      have enough := fetches.enough
      simp only at enough
      cases sustained with
      | frame calleeAbove calleeBalanced calleeFits callerSustained =>
          -- The frame on top is the callee's and the one below it the caller's.
          rename_i calleePeak
          cases callerSustained with
          | frame callerAbove balanced fits rest =>
              rename_i peak
              simp only [Frame.advance] at calleeBalanced calleeFits balanced fits rest
              have calleeHeight :
                  machine.stack.size - (machine.stack.size - call.inputs) = call.inputs := by omega
              have height : machine.stack.size - call.inputs + call.outputs - frame.base =
                  machine.stack.size - frame.base - call.inputs + call.outputs := by omega
              rw [calleeHeight] at calleeBalanced
              rw [height] at balanced
              refine .frame above (.call fetches.held fetches.assigned named enough later
                calleeBalanced balanced) ?_ rest
              omega
  | leave frames ended full =>
      rename_i frame caller callers
      rw [frames] at nested ⊢
      have above := nested.1
      refine .frame above (.of_endsAt ended full) (by omega) ?_
      rw [show frame.base + frame.outputs = machine.stack.size by omega]
      exact sustained

end Machine

end StackCert
