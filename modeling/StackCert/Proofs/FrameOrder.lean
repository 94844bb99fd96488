import Mathlib.Data.List.Chain
import Mathlib.Data.List.Perm.Subperm
import StackCert.Proofs.Turn

/-!
# The order of open frames

A machine shares one stack among all its frames and tests at each instruction
that the innermost frame has the values it takes. That is enough to keep the
frames apart, in programs that were never certified as well. `Program.Calls`
relates two neighbouring frames: the caller stands behind the call that opened
the callee, and the callee's values start no deeper than the caller's own.
`Machine.Orderly` adds the entry, the position of every frame in its source, and
the height of the stack. Each turn of a run keeps it, whether the run goes on,
stops or fails.
-/

namespace StackCert

namespace Program

/-- The caller stands behind the call that opened the callee. -/
structure Calls (program : Program) (callee caller : Frame) : Prop where
  later : caller.source < callee.source
  above : caller.base ≤ callee.base
  behind : ∃ position instruction call, caller.position = position + Instruction.width ∧
    program.Holds caller.source position instruction ∧ instruction.call? = some call ∧
    call.source = callee.source ∧ call.outputs = callee.outputs

/-- A frame stands in front of an instruction of its source or at the end of it. -/
structure Places (program : Program) (frame : Frame) : Prop where
  even : frame.position % Instruction.width = 0
  inside : ∀ code, program.sources[frame.source]? = some code → frame.position ≤ code.size

/-- Open frames, the innermost first, of a source that has to end with `outputs` values. -/
structure InOrder (program : Program) (source outputs : Nat) (frames : List Frame) : Prop where
  entry : ∀ frame ∈ frames.getLast?,
    frame.source = source ∧ frame.base = 0 ∧ frame.outputs = outputs
  calls : frames.IsChain program.Calls
  placed : ∀ frame ∈ frames, program.Places frame

variable {program : Program} {source outputs : Nat} {frame callee caller : Frame}
  {callers : List Frame} {instruction : Instruction}

theorem Calls.source_le (calls : program.Calls callee caller) : callee.source ≤ 15 := by
  rcases calls.behind with ⟨position, instruction, call, _, _, named, sameSource, _⟩
  rw [← sameSource]
  unfold Instruction.call? at named
  split at named
  · cases named
    simp only [CallOperand.ofByte]
    omega
  · simp at named

theorem Calls.advance (calls : program.Calls callee caller) :
    program.Calls callee.advance caller :=
  ⟨calls.later, calls.above, calls.behind⟩

theorem Places.advance (places : program.Places frame)
    (held : program.Holds frame.source frame.position instruction) :
    program.Places frame.advance := by
  constructor
  · rw [Frame.advance, Nat.add_mod_right]
    exact places.even
  · intro code found
    rcases held with ⟨code', found', held⟩
    cases found.symm.trans found'
    have inside := Code.lt_size_of_instruction? held
    simp only [Frame.advance, Instruction.width]
    omega

/-- The innermost frame can go on behind an instruction. -/
theorem InOrder.advance (inOrder : program.InOrder source outputs (frame :: callers))
    (held : program.Holds frame.source frame.position instruction) :
    program.InOrder source outputs (frame.advance :: callers) := by
  constructor
  · cases callers with
    | nil => simpa [Frame.advance] using inOrder.entry
    | cons caller callers => simpa using inOrder.entry
  · cases callers with
    | nil => exact .singleton _
    | cons caller callers =>
        rcases List.isChain_cons_cons.mp inOrder.calls with ⟨calls, deeper⟩
        exact List.isChain_cons_cons.mpr ⟨calls.advance, deeper⟩
  · intro open' member
    rcases List.mem_cons.mp member with rfl | inCallers
    · exact (inOrder.placed frame List.mem_cons_self).advance held
    · exact inOrder.placed open' (List.mem_cons_of_mem frame inCallers)

/-- A callee can be opened above a frame. -/
theorem InOrder.enter (inOrder : program.InOrder source outputs (caller :: callers))
    (calls : program.Calls callee caller) (places : program.Places callee) :
    program.InOrder source outputs (callee :: caller :: callers) := by
  constructor
  · rw [List.getLast?_cons_cons]
    exact inOrder.entry
  · exact List.isChain_cons_cons.mpr ⟨calls, inOrder.calls⟩
  · intro open' member
    rcases List.mem_cons.mp member with rfl | inCallers
    · exact places
    · exact inOrder.placed open' inCallers

/-- The innermost frame can be closed. -/
theorem InOrder.leave (inOrder : program.InOrder source outputs (frame :: caller :: callers)) :
    program.InOrder source outputs (caller :: callers) := by
  constructor
  · rw [← List.getLast?_cons_cons (a := frame)]
    exact inOrder.entry
  · exact (List.isChain_cons_cons.mp inOrder.calls).2
  · intro open' member
    exact inOrder.placed open' (List.mem_cons_of_mem frame member)

theorem InOrder.sources_pairwise {frames : List Frame}
    (inOrder : program.InOrder source outputs frames) :
    (frames.map Frame.source).Pairwise (· > ·) := by
  apply List.IsChain.pairwise
  rw [List.isChain_map]
  exact inOrder.calls.imp fun callee caller calls => calls.later

theorem InOrder.bases_pairwise {frames : List Frame}
    (inOrder : program.InOrder source outputs frames) :
    (frames.map Frame.base).Pairwise (· ≥ ·) := by
  apply List.IsChain.pairwise
  rw [List.isChain_map]
  exact inOrder.calls.imp fun callee caller calls => calls.above

/-- A frame with a caller was named by four bits. -/
theorem InOrder.callee_source_le {frames : List Frame}
    (inOrder : program.InOrder source outputs frames) :
    ∀ frame ∈ frames.dropLast, frame.source ≤ 15 := by
  have chain := inOrder.calls
  induction chain with
  | nil => simp
  | singleton frame => simp
  | cons_cons calls rest ih =>
      rename_i callee caller callers
      intro frame member
      rw [List.dropLast_cons_of_ne_nil (List.cons_ne_nil caller callers)] at member
      rcases List.mem_cons.mp member with rfl | deeper
      · exact calls.source_le
      · exact ih inOrder.leave frame deeper

theorem InOrder.length_le {frames : List Frame}
    (inOrder : program.InOrder source outputs frames) : frames.length ≤ 16 := by
  have sources := inOrder.sources_pairwise
  have named := inOrder.callee_source_le
  match frames with
  | [] => simp
  | [frame] => simp
  | callee :: caller :: callers =>
      -- All sources lie below that of the innermost frame, which is at most 15.
      have innermost : callee.source ≤ 15 := named callee (by simp)
      have few : (callee :: caller :: callers).map Frame.source ⊆ List.range 16 := by
        intro number member
        rw [List.mem_range]
        rcases List.mem_cons.mp member with rfl | deeper
        · omega
        · have below : number < callee.source := List.rel_of_pairwise_cons sources deeper
          omega
      have distinct : ((callee :: caller :: callers).map Frame.source).Nodup :=
        sources.imp fun above => Nat.ne_of_gt above
      simpa using (List.Nodup.subperm distinct few).length_le

end Program

namespace Machine

/-- What holds of a machine at every moment of a run. -/
structure Orderly (machine : Machine) (source outputs : Nat) : Prop where
  inOrder : machine.program.InOrder source outputs machine.frames
  above : ∀ frame ∈ machine.frames.head?, frame.base ≤ machine.stack.size
  stopped : machine.status = some .stopped →
    machine.frames = [] ∧ machine.stack.size = outputs

variable {machine after : Machine} {source outputs : Nat}

theorem orderly_of_entry (frames : machine.frames = [⟨source, 0, 0, outputs⟩])
    (running : machine.status = none) : machine.Orderly source outputs := by
  constructor
  · rw [frames]
    constructor
    · simp
    · exact .singleton _
    · intro frame member
      cases List.mem_singleton.mp member
      exact ⟨rfl, fun code found => Nat.zero_le _⟩
  · simp [frames]
  · simp [running]

theorem Orderly.of_advances (orderly : machine.Orderly source outputs)
    (running : machine.status = none) (advances : machine.Advances after) :
    after.Orderly source outputs := by
  have inOrder := orderly.inOrder
  have above := orderly.above
  have unstopped := advances.status_eq.trans running
  refine ⟨?_, ?_, by simp [unstopped]⟩
  · cases advances with
    | run fetches plain admitted exchanges =>
        rw [fetches.frames] at inOrder
        exact inOrder.advance fetches.held
    | enter fetches named later present =>
        rename_i frame callers instruction call
        rw [fetches.frames] at inOrder above
        have enough := fetches.enough
        have callerAbove := above frame rfl
        have isCall := Instruction.call?_of_call fetches.assigned
        rw [named] at isCall
        refine (inOrder.advance fetches.held).enter ⟨later, ?_, ?_⟩ ⟨rfl, ?_⟩
        · simp only [Frame.advance] at enough ⊢
          omega
        · exact ⟨frame.position, instruction, call, rfl, fetches.held, isCall, rfl, rfl⟩
        · intro code found
          exact Nat.zero_le _
    | leave frames ended full =>
        rw [frames] at inOrder
        exact inOrder.leave
  · cases advances with
    | run fetches plain admitted exchanges =>
        rename_i frame callers instruction operation effect stack
        rw [fetches.frames] at above
        have callerAbove := above frame rfl
        have enough := fetches.enough
        have size := exchanges.size
        rintro _ ⟨⟩
        simp only [Frame.advance]
        omega
    | enter fetches named later present =>
        rintro _ ⟨⟩
        exact Nat.sub_le _ _
    | leave frames ended full =>
        rename_i frame caller callers
        rw [frames] at inOrder above
        have calls := (List.isChain_cons_cons.mp inOrder.calls).1
        rintro _ ⟨⟩
        exact Nat.le_trans calls.above (above frame rfl)

theorem Orderly.of_turns {exit? : Option Exit} (orderly : machine.Orderly source outputs)
    (running : machine.status = none) (turns : machine.Turns exit? after) :
    after.Orderly source outputs := by
  have above := orderly.above
  cases turns with
  | advanced advances => exact orderly.of_advances running advances
  | stopped frames ended full =>
      rename_i frame
      have entry := orderly.inOrder.entry frame (by simp [frames])
      refine ⟨⟨by simp [Machine.exit], by simp [Machine.exit], by simp [Machine.exit]⟩,
        by simp [Machine.exit], ?_⟩
      intro _
      refine ⟨rfl, ?_⟩
      simp only [Machine.exit]
      omega
  | broken breaks =>
      cases breaks with
      | still => exact ⟨orderly.inOrder, orderly.above, by simp [Machine.exit]⟩
      | condition fetches popped =>
          rename_i frame callers instruction below
          have size := (Stack.exchanges_of_pop popped).size
          have enough := fetches.enough
          refine ⟨orderly.inOrder, ?_, by simp [Machine.exit]⟩
          intro innermost isInnermost
          have callerAbove := above innermost isInnermost
          rw [Machine.exit, fetches.frames] at isInnermost
          cases isInnermost
          simp only [Machine.exit] at size ⊢
          simp only at enough
          omega
  | refused fetches within took =>
      rename_i frame callers instruction operation effect stack taken failure
      have inOrder := orderly.inOrder
      rw [fetches.frames] at inOrder above
      have callerAbove := above frame rfl
      have size := took.size
      have enough := fetches.enough
      refine ⟨inOrder.advance fetches.held, ?_, by simp [Machine.exit]⟩
      rintro _ ⟨⟩
      simp only [Machine.exit, Frame.advance] at size ⊢
      omega

end Machine

namespace Evaluation

variable {σ : Type}

/--
The frames of a machine stay in order at every moment of a run, whatever its
program and its host. No stack grows beyond its limit; each frame calls a later
source, at most the sixteenth, and stands behind that call; no frame starts below
its caller or above the stack; positions are those of instructions; and a run
stops only with all frames left and the declared number of values.
-/
theorem frames_stay_in_order (program : Program) (context : Context)
    (source outputs stackLimit : Nat) (layout : Layout) (space : Word) (host : Host σ) (state : σ)
    (steps : Nat) :
    let evaluation := start (.start program context source outputs stackLimit layout) space
    let machine := (evaluation.after host state steps).1.machine
    machine.stack.size ≤ stackLimit ∧
    (machine.frames.map Frame.source).Pairwise (· > ·) ∧
    (∀ frame ∈ machine.frames.dropLast, frame.source ≤ 15) ∧
    machine.frames.length ≤ 16 ∧
    (∀ frame ∈ machine.frames.getLast?, frame.source = source ∧ frame.base = 0) ∧
    (machine.frames.map Frame.base).Pairwise (· ≥ ·) ∧
    (∀ frame ∈ machine.frames.head?, frame.base ≤ machine.stack.size) ∧
    (∀ frame ∈ machine.frames, frame.position % 2 = 0 ∧
      ∀ code, program.sources[frame.source]? = some code → frame.position ≤ code.size) ∧
    machine.frames.IsChain (fun callee caller =>
      ∃ position instruction call, caller.position = position + 2 ∧
        program.Holds caller.source position instruction ∧ instruction.call? = some call ∧
        call.source = callee.source ∧ call.outputs = callee.outputs) ∧
    (machine.status = some .stopped → machine.frames = [] ∧ machine.stack.size = outputs) := by
  intro evaluation machine
  have kept : machine.Orderly source outputs ∧ machine.program = program ∧
      machine.stack.limit = stackLimit := by
    refine after_induction
      (fun machine => machine.Orderly source outputs ∧ machine.program = program ∧
        machine.stack.limit = stackLimit) ?_ (running_start ..) ?_ steps
    · rintro before after exit? running turns ⟨orderly, sameProgram, sameLimit⟩
      exact ⟨orderly.of_turns running turns, turns.program_eq.trans sameProgram,
        turns.limit_eq.trans sameLimit⟩
    · exact ⟨Machine.orderly_of_entry rfl rfl, rfl, rfl⟩
  rcases kept with ⟨⟨inOrder, above, stopped⟩, sameProgram, sameLimit⟩
  rw [sameProgram] at inOrder
  refine ⟨sameLimit ▸ machine.stack.size_le_limit, inOrder.sources_pairwise,
    inOrder.callee_source_le, inOrder.length_le, ?_, inOrder.bases_pairwise, above, ?_, ?_,
    stopped⟩
  · intro frame isEntry
    rcases inOrder.entry frame isEntry with ⟨sameSource, bottom, _⟩
    exact ⟨sameSource, bottom⟩
  · intro frame member
    have places := inOrder.placed frame member
    exact ⟨places.even, places.inside⟩
  · exact inOrder.calls.imp fun callee caller calls => calls.behind

end Evaluation

end StackCert
