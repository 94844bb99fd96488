import StackCert.Host.Plain
import StackCert.Proofs.Fault
import StackCert.Proofs.Soundness
import StackCert.Proofs.Straying

/-!
# A run meets the fault that certification finds

Certification follows the code without running it, and a machine makes the tests
again when it comes to an instruction. Here the two are shown to agree on programs
that are rejected: the run fails where the rejection says and for the same reason,
unless it is ended before that at an instruction which passes all tests
(`Evaluation.Forestalled`).

`Program.Awaits` says where the fault lies ahead of the open frames. It is in the
innermost frame, or this frame will end with another number of values than
declared for it, or it will end as declared and the fault is ahead of its callers.
A machine that moves on still has the fault ahead, so it cannot stop. Room on the
stack is no concern if the limit is at least the number of instructions ahead, for
none of them adds more than one value.
-/

namespace StackCert

namespace Program

/-- A rejection says that the callee of a call ends with another number of values than declared. -/
def BlamesCall (program : Program) (rejection : Rejection) (callee : Nat) : Prop :=
  ∃ instruction expected actual,
    program.Holds rejection.source rejection.position instruction ∧
      instruction.operation = .ok .call ∧
      (CallOperand.ofByte instruction.operand).source = callee ∧
      rejection.failure = .stackMismatch expected actual

/-- A rejection is at the place where a source ends: its own end, or the call it was opened by. -/
def BlamesEnd (program : Program) (rejection : Rejection) (source : Nat) : List Frame → Prop
  | [] => rejection.source = source ∧ program.EndsAt source rejection.position
  | caller :: _ => program.BlamesCall rejection source ∧ caller.source = rejection.source ∧
      caller.position = rejection.position + Instruction.width

/-- The fault that a rejection names is ahead of the open frames, the innermost first. -/
inductive Awaits (program : Program) (bounds : Bounds) (rejection : Rejection) :
    Nat → List Frame → Prop where
  | here {size : Nat} {frame : Frame} {callers : List Frame} (above : frame.base ≤ size)
      (falters : program.Falters bounds frame.source frame.position (size - frame.base)
        rejection) :
      Awaits program bounds rejection size (frame :: callers)
  | mismatch {size actual peak : Nat} {frame : Frame} {callers : List Frame}
      (above : frame.base ≤ size)
      (balanced : program.Balanced bounds frame.source frame.position (size - frame.base)
        actual peak)
      (differs : actual ≠ frame.outputs)
      (failure : rejection.failure = .stackMismatch frame.outputs actual)
      (blames : program.BlamesEnd rejection frame.source callers) :
      Awaits program bounds rejection size (frame :: callers)
  | later {size peak : Nat} {frame : Frame} {callers : List Frame} (above : frame.base ≤ size)
      (balanced : program.Balanced bounds frame.source frame.position (size - frame.base)
        frame.outputs peak)
      (rest : Awaits program bounds rejection (frame.base + frame.outputs) callers) :
      Awaits program bounds rejection size (frame :: callers)

variable {program : Program} {bounds : Bounds} {rejection : Rejection}

/-- A fault at a place is not blamed on the callee of a call. -/
theorem Faults.not_blamesCall {height callee : Nat}
    (faults : program.Faults bounds rejection.source rejection.position height
      rejection.failure) : ¬program.BlamesCall rejection callee := by
  rintro ⟨instruction, expected, actual, held, assigned, _, failed⟩
  rw [failed] at faults
  cases faults with
  | unassigned held' unassigned =>
      cases held.unique held'
      cases assigned.symm.trans unassigned
  | undescribed held' assigned' undescribed =>
      cases held.unique held'
      cases assigned.symm.trans assigned'
      cases undescribed

theorem EndsAt.not_blamesCall {callee : Nat}
    (ended : program.EndsAt rejection.source rejection.position) :
    ¬program.BlamesCall rejection callee := by
  rintro ⟨instruction, _, _, held, _⟩
  exact ended.not_holds held

/-- A program that is rejected without a limit has the fault ahead when its entry is opened. -/
theorem awaits_of_check {outputs : Nat} (even : ∀ code ∈ program.sources, code.size % 2 = 0)
    (rejected : program.check bounds [outputs] = .error rejection) :
    program.Awaits bounds rejection 0 [⟨0, 0, 0, outputs⟩] := by
  rcases falters_or_mismatched_of_check even rejected with
    falters | ⟨actual, peak, balanced, differs, rfl⟩
  · exact .here (Nat.le_refl 0) falters
  · refine .mismatch (Nat.le_refl 0) balanced differs rfl ⟨rfl, ?_⟩
    rcases balanced.exists_code with ⟨code, found⟩
    exact ⟨code, found, by simp only [sourceSize, found]⟩

variable {size : Nat} {frame : Frame} {callers : List Frame} {instruction : Instruction}
  {effect : Effect}

/-- The fault is still ahead behind an instruction that passes and is no call. -/
theorem Awaits.of_plain {operation : Operation}
    (awaits : program.Awaits bounds rejection size (frame :: callers))
    (passes : program.Passes bounds frame.source frame.position (size - frame.base) instruction
      operation effect) (plain : operation ≠ .call) :
    program.Awaits bounds rejection (size - effect.pops + effect.pushes)
      (frame.advance :: callers) := by
  have enough := passes.enough
  have height (above : frame.base ≤ size) : size - frame.base - effect.pops + effect.pushes =
      size - effect.pops + effect.pushes - frame.base := by omega
  have stillAbove (above : frame.base ≤ size) :
      frame.base ≤ size - effect.pops + effect.pushes := by omega
  cases awaits with
  | here above falters =>
      have rest := falters.rest_of_plain passes plain
      rw [height above] at rest
      exact .here (stillAbove above) rest
  | mismatch above balanced differs failure blames =>
      rcases balanced.rest_of_plain passes.held passes.assigned plain passes.described with
        ⟨_, _, _, _, rest⟩
      rw [height above] at rest
      exact .mismatch (stillAbove above) rest differs failure blames
  | later above balanced later =>
      rcases balanced.rest_of_plain passes.held passes.assigned plain passes.described with
        ⟨_, _, _, _, rest⟩
      rw [height above] at rest
      exact .later (stillAbove above) rest later

/-- The fault is still ahead in a callee that is opened, and in the frame it returns to. -/
theorem Awaits.of_call {call : CallOperand}
    (awaits : program.Awaits bounds rejection size (frame :: callers))
    (passes : program.Passes bounds frame.source frame.position (size - frame.base) instruction
      .call ⟨call.inputs, call.outputs⟩)
    (named : CallOperand.ofByte instruction.operand = call) :
    program.Awaits bounds rejection size
      (⟨call.source, 0, size - call.inputs, call.outputs⟩ :: frame.advance :: callers) := by
  have enough : call.inputs ≤ size - frame.base := passes.enough
  -- The callee starts below its inputs; its caller goes on above its outputs.
  have inputs : call.inputs = size - (size - call.inputs) := by omega
  have height (above : frame.base ≤ size) : size - frame.base - call.inputs + call.outputs =
      size - call.inputs + call.outputs - frame.base := by omega
  have stillAbove (above : frame.base ≤ size) :
      frame.base ≤ size - call.inputs + call.outputs := by omega
  cases awaits with
  | here above falters =>
      rcases falters.rest_of_call passes named with
        inCallee | ⟨actual, peak, callee, differs, rfl⟩ | ⟨peak, callee, rest⟩
      · rw [inputs] at inCallee
        exact .here (Nat.sub_le _ _) inCallee
      · rw [inputs] at callee
        refine .mismatch (Nat.sub_le _ _) callee differs rfl ⟨?_, rfl, rfl⟩
        exact ⟨instruction, _, _, passes.held, passes.assigned, by rw [named], rfl⟩
      · rw [inputs] at callee
        rw [height above] at rest
        exact .later (Nat.sub_le _ _) callee (.here (stillAbove above) rest)
  | mismatch above balanced differs failure blames =>
      rcases balanced.rest_of_call passes.held passes.assigned named with
        ⟨_, _, _, _, _, callee, rest⟩
      rw [inputs] at callee
      rw [height above] at rest
      exact .later (Nat.sub_le _ _) callee
        (.mismatch (stillAbove above) rest differs failure blames)
  | later above balanced later =>
      rcases balanced.rest_of_call passes.held passes.assigned named with
        ⟨_, _, _, _, _, callee, rest⟩
      rw [inputs] at callee
      rw [height above] at rest
      exact .later (Nat.sub_le _ _) callee (.later (stillAbove above) rest later)

/-- A frame that ends as declared leaves the fault to its callers, so it has some. -/
theorem Awaits.of_endsAt (awaits : program.Awaits bounds rejection size (frame :: callers))
    (ended : program.EndsAt frame.source frame.position)
    (full : size - frame.base = frame.outputs) : program.Awaits bounds rejection size callers := by
  cases awaits with
  | here above falters => exact absurd ended falters.not_endsAt
  | mismatch above balanced differs =>
      have declared := (balanced.eq_of_endsAt ended).1.trans full
      exact absurd declared differs
  | later above balanced rest =>
      rw [show frame.base + frame.outputs = size by omega] at rest
      exact rest

/-- A frame that does not end as declared is the one that is blamed. -/
theorem Awaits.blamesEnd_of_endsAt
    (awaits : program.Awaits bounds rejection size (frame :: callers))
    (ended : program.EndsAt frame.source frame.position)
    (differs : size - frame.base ≠ frame.outputs) :
    rejection.failure = .stackMismatch frame.outputs (size - frame.base) ∧
      program.BlamesEnd rejection frame.source callers := by
  cases awaits with
  | here above falters => exact absurd ended falters.not_endsAt
  | mismatch above balanced _ failure blames =>
      rw [← (balanced.eq_of_endsAt ended).1]
      exact ⟨failure, blames⟩
  | later above balanced rest => exact absurd (balanced.eq_of_endsAt ended).1.symm differs

/-- What the innermost frame has before it when a fault is ahead. -/
theorem Awaits.faults_or_endsAt_or_passes
    (awaits : program.Awaits bounds rejection size (frame :: callers)) :
    (rejection.source = frame.source ∧ rejection.position = frame.position ∧
      program.Faults bounds frame.source frame.position (size - frame.base) rejection.failure) ∨
    program.EndsAt frame.source frame.position ∨
    ∃ instruction operation effect, program.Passes bounds frame.source frame.position
      (size - frame.base) instruction operation effect := by
  cases awaits with
  | here above falters => exact falters.faults_or_passes.imp_right Or.inr
  | mismatch above balanced => exact Or.inr balanced.endsAt_or_passes
  | later above balanced => exact Or.inr balanced.endsAt_or_passes

end Program

theorem Operation.pushes_le_one {operation : Operation} {operand : UInt8} {effect : Effect}
    (plain : operation ≠ .call) (described : operation.effect operand = .ok effect) :
    effect.pushes ≤ 1 := by
  unfold Operation.effect at described
  split at described
  case h_4 => exact absurd rfl plain
  case h_9 reducer =>
    cases counted : reducer.arity operand with
    | error failure => simp [counted, Except.map] at described
    | ok arity =>
        simp only [counted, Except.map, Except.ok.injEq] at described
        simp [← described]
  case h_5 =>
    split at described
    · simp at described
    · cases described
      exact Nat.zero_le 1
  all_goals
    cases described
    decide

namespace Machine

/-- The fault that a rejection names is ahead of the machine. -/
def Awaits (machine : Machine) (rejection : Rejection) : Prop :=
  machine.program.Awaits machine.context.bounds rejection machine.stack.size machine.frames

/-- The stack has room for a value from each instruction ahead. -/
def Roomy (machine : Machine) : Prop :=
  machine.stack.size + machine.ahead.length ≤ machine.stack.limit

/--
The machine stands where a rejection says. If the rejection blames a call, the
machine stands at the end of its callee and is to return behind the call.
-/
inductive StandsAt (machine : Machine) (rejection : Rejection) : Prop where
  | place {frame : Frame} {callers : List Frame} (frames : machine.frames = frame :: callers)
      (source : frame.source = rejection.source) (position : frame.position = rejection.position)
      (unblamed : ∀ callee, ¬machine.program.BlamesCall rejection callee)
  | call {callee caller : Frame} {callers : List Frame}
      (frames : machine.frames = callee :: caller :: callers)
      (ended : machine.program.EndsAt callee.source callee.position)
      (blamed : machine.program.BlamesCall rejection callee.source)
      (source : caller.source = rejection.source)
      (position : caller.position = rejection.position + Instruction.width)

variable {machine after : Machine} {rejection : Rejection} {frame : Frame} {callers : List Frame}
  {instruction : Instruction} {operation : Operation} {effect : Effect} {failure : Failure}
  {exit : Exit}

theorem Roomy.room (roomy : machine.Roomy) (running : machine.status = none)
    (fetches : machine.Fetches frame callers instruction operation effect)
    (plain : operation ≠ .call) :
    machine.stack.size - effect.pops + effect.pushes ≤ machine.stack.limit := by
  have small := Operation.pushes_le_one plain fetches.described
  have nonempty := List.length_pos_of_mem
    (mem_ahead_of_inspect? (inspect?_of_fetches running fetches))
  unfold Roomy at roomy
  omega

theorem Roomy.of_advances (roomy : machine.Roomy) (running : machine.status = none)
    (advances : machine.Advances after) : after.Roomy := by
  have ahead := congrArg List.length (advances.ahead_eq running)
  rw [List.length_append] at ahead
  unfold Roomy at roomy ⊢
  cases advances with
  | run fetches plain admitted exchanges =>
      have small := Operation.pushes_le_one plain fetches.described
      have size := exchanges.size
      have limit := exchanges.limit
      rw [inspect?_of_fetches running fetches, Option.toList_some, List.length_singleton] at ahead
      simp only
      omega
  | enter fetches =>
      simp only
      omega
  | leave frames =>
      simp only
      omega

/-- A machine that moves on still has the fault ahead. -/
theorem Awaits.of_advances (awaits : machine.Awaits rejection)
    (advances : machine.Advances after) : after.Awaits rejection := by
  simp only [Awaits] at awaits ⊢
  rw [advances.context_eq]
  cases advances with
  | run fetches plain admitted exchanges =>
      rw [fetches.frames] at awaits
      rw [exchanges.size]
      refine awaits.of_plain ⟨fetches.held, fetches.assigned, fetches.described, fetches.enough,
        admitted, ?_⟩ plain
      intro isCall
      exact absurd isCall plain
  | enter fetches named later present =>
      rw [fetches.frames] at awaits
      apply awaits.of_call _ named
      exact Program.passes_call fetches.held fetches.assigned named fetches.enough later present
  | leave frames ended full =>
      rw [frames] at awaits
      exact awaits.of_endsAt ended full

/-- An operand that is not admitted names nothing when the operation is run. -/
theorem perform_of_not_admitted {operand : UInt8}
    (refused : machine.program.admitsOperand machine.context.bounds
      (machine.stack.size - frame.base) operation operand = false) :
    machine.perform frame operation operand = .halt machine.stack .operandOutOfBounds := by
  cases operation with
  | constant =>
      have outside : machine.program.constants.size ≤ operand.toNat := by
        simpa [Program.admitsOperand] using refused
      simp [perform, Program.constant, outside, pushing]
  | stack =>
      have few : machine.stack.size - frame.base ≤ operand.toNat := by
        simpa [Program.admitsOperand] using refused
      have outside : machine.stack.words.size ≤ frame.base + operand.toNat := by
        rw [Stack.size] at few
        omega
      simp [perform, Stack.get, outside, pushing]
  | context =>
      simp only [Program.admitsOperand, Context.contains_bounds, Option.isSome_eq_false_iff,
        Option.isNone_iff_eq_none] at refused
      simp [perform, Context.cell, refused, pushing]
  | call | debug | get | set | ensure | reduce => simp [Program.admitsOperand] at refused

/-- A machine at a place with a fault fails with it and stays there. -/
theorem step_of_faults (running : machine.status = none)
    (frames : machine.frames = frame :: callers)
    (faults : machine.program.Faults machine.context.bounds frame.source frame.position
      (machine.stack.size - frame.base) failure) :
    machine.step = machine.finish (.failed failure) := by
  cases faults with
  | absent missing => simp only [step, running, frames, missing]
  | unassigned held unassigned =>
      rcases held with ⟨code, found, held⟩
      simp only [step, running, frames, found, held, execute, unassigned]
  | undescribed held assigned undescribed =>
      rcases held with ⟨code, found, held⟩
      simp only [step, running, frames, found, held, execute, assigned, undescribed]
  | underflow held assigned described fewer =>
      rcases held with ⟨code, found, held⟩
      simp only [step, running, frames, found, held, execute, assigned, described, fewer,
        ↓reduceIte]
  | operand held assigned described enough refused =>
      rw [step_of_fetches running ⟨frames, held, assigned, described, enough⟩,
        perform_of_not_admitted refused]
      rfl
  | order held assigned named enough unordered =>
      subst named
      rw [step_of_fetches running ⟨frames, held, assigned, rfl, enough⟩]
      simp only [perform, enter, unordered, ↓reduceIte]
      rfl

theorem standsAt_of_faults (frames : machine.frames = frame :: callers)
    (source : rejection.source = frame.source) (position : rejection.position = frame.position)
    {bounds : Bounds} {height : Nat}
    (faults : machine.program.Faults bounds frame.source frame.position height rejection.failure) :
    machine.StandsAt rejection := by
  rw [← source, ← position] at faults
  refine .place frames source.symm position.symm ?_
  intro callee
  exact faults.not_blamesCall

theorem standsAt_of_blamesEnd (frames : machine.frames = frame :: callers)
    (ended : machine.program.EndsAt frame.source frame.position)
    (blames : machine.program.BlamesEnd rejection frame.source callers) :
    machine.StandsAt rejection := by
  cases callers with
  | nil =>
      rcases blames with ⟨source, ends⟩
      have position := ended.unique ends
      refine .place frames source.symm position ?_
      intro callee
      apply Program.EndsAt.not_blamesCall
      rw [source]
      exact ends
  | cons caller callers =>
      rcases blames with ⟨blamed, source, position⟩
      exact .call frames ended blamed source position

/-- The machine has come to an instruction that passes the tests made before it is run. -/
def Clears (machine : Machine) (instruction : Instruction) (operation : Operation) : Prop :=
  ∃ frame callers effect, machine.frames = frame :: callers ∧
    machine.program.Passes machine.context.bounds frame.source frame.position
      (machine.stack.size - frame.base) instruction operation effect

/-- A reducer that passes leads the machine astray if it has no result. -/
theorem strays_of_undefined {reducer : Reducer} {kept words : List Word}
    (running : machine.status = none) (frames : machine.frames = frame :: callers)
    (passes : machine.program.Passes machine.context.bounds frame.source frame.position
      (machine.stack.size - frame.base) instruction (.reduce reducer) effect)
    (values : machine.stack.toList = kept ++ words)
    (counted : reducer.arity instruction.operand = .ok words.length)
    (undefined : reducer.Undefined machine.layout instruction.operand words) : machine.Strays := by
  have held : machine.program.Holds frame.source frame.position
      ⟨(Operation.reduce reducer).opcode, instruction.operand⟩ := by
    rw [← Opcode.eq_opcode_of_operation? (Instruction.operation_eq_ok_iff.mp passes.assigned)]
    exact passes.held
  have within : frame.base ≤ kept.length := by
    have described := passes.described
    simp only [Operation.effect, counted, Except.map, Except.ok.injEq] at described
    have enough : words.length ≤ machine.stack.size - frame.base := by
      simpa [← described] using passes.enough
    have size := Stack.size_eq_of_toList values
    have nonempty := Reducer.arity_pos counted
    omega
  exact ⟨frame, callers, reducer, instruction.operand, kept, words, ⟨running, frames, held⟩,
    counted, values, within, undefined⟩

/-- An instruction that passes and fails has aborted, or the machine strays at it. -/
theorem Clears.aborts_or_strays (clears : machine.Clears instruction operation)
    (running : machine.status = none) (gives : machine.Gives instruction operation failure) :
    instruction.Aborts failure ∨ (failure = .undefined ∧ machine.Strays) := by
  rcases clears with ⟨frame, callers, effect, frames, passes⟩
  cases gives with
  | condition popped => exact Or.inl (.condition passes.assigned)
  | reduction values counted failed =>
      rcases Reducer.aborts_or_undefined_of_combine counted failed with aborts | ⟨rfl, undefined⟩
      · exact Or.inl (.reduction passes.assigned aborts)
      · exact Or.inr ⟨rfl, strays_of_undefined running frames passes values counted undefined⟩

/-- A machine with a fault ahead exits with it, at its place, or at an instruction that passes. -/
theorem Awaits.of_exited (awaits : machine.Awaits rejection) (roomy : machine.Roomy)
    (running : machine.status = none) (framed : machine.frames ≠ [])
    (stepped : machine.step = (.exited exit, after)) :
    ∃ failure, exit = .failed failure ∧
      (failure = rejection.failure ∧ after.StandsAt rejection ∨
        ∃ instruction operation, machine.Clears instruction operation ∧
          machine.Gives instruction operation failure) := by
  rcases List.exists_cons_of_ne_nil framed with ⟨frame, callers, frames⟩
  unfold Awaits at awaits
  rw [frames] at awaits
  rcases awaits.faults_or_endsAt_or_passes with
    ⟨source, position, faults⟩ | ended | ⟨instruction, operation, effect, passes⟩
  · rw [step_of_faults running frames faults] at stepped
    cases stepped
    refine ⟨rejection.failure, rfl, Or.inl ⟨rfl, ?_⟩⟩
    exact standsAt_of_faults frames source position faults
  · rw [step_of_endsAt running frames ended] at stepped
    by_cases full : machine.stack.size - frame.base = frame.outputs
    · -- The frame has a caller, which goes on.
      have rest := awaits.of_endsAt ended full
      rcases callers with _ | ⟨caller, callers⟩
      · cases rest
      · simp [leave, full] at stepped
    · rcases awaits.blamesEnd_of_endsAt ended full with ⟨failure, blames⟩
      simp only [leave, full, ↓reduceIte] at stepped
      cases stepped
      refine ⟨_, rfl, Or.inl ⟨failure.symm, ?_⟩⟩
      exact standsAt_of_blamesEnd frames ended blames
  · have room (plain : operation ≠ .call) :=
      roomy.room running (fetches_of_passes frames passes) plain
    rcases gives_of_exited machine.context.bounds_satisfiedBy running frames passes room stepped
      with ⟨failure, rfl, gives⟩
    exact ⟨failure, rfl, Or.inr ⟨instruction, operation, ⟨_, _, _, frames, passes⟩, gives⟩⟩

end Machine

namespace Evaluation

variable {σ : Type}

/-- A running evaluation whose machine has a fault ahead and room to come to it. -/
structure Doomed (evaluation : Evaluation) (space : Word) (rejection : Rejection) : Prop where
  running : evaluation.Running
  awaits : evaluation.machine.Awaits rejection
  roomy : evaluation.machine.Roomy
  owned : evaluation.space = space

theorem doomed_start {program : Program} {context : Context} {outputs stackLimit : Nat}
    {rejection : Rejection} (even : ∀ code ∈ program.sources, code.size % 2 = 0)
    (rejected : program.check context.bounds [outputs] = .error rejection)
    (ample : (program.unfold 0 0).length ≤ stackLimit) (layout : Layout) (space : Word) :
    (start (.start program context 0 outputs stackLimit layout) space).Doomed space rejection := by
  refine ⟨running_start .., Program.awaits_of_check even rejected, ?_, rfl⟩
  simp only [Machine.Roomy, start, Machine.ahead_start]
  simpa [Machine.start, Stack.empty, Stack.size] using ample

variable {host : Host σ} {evaluation after : Evaluation} {state state' : σ} {space : Word}
  {rejection : Rejection} {exit : Exit}

theorem Doomed.of_step (doomed : evaluation.Doomed space rejection)
    (stepped : evaluation.step host state = (none, after, state')) :
    after.Doomed space rejection := by
  rcases advances_of_step doomed.running stepped with ⟨advances, _, owned⟩
  exact ⟨running_of_step doomed.running stepped, doomed.awaits.of_advances advances,
    doomed.roomy.of_advances doomed.running.machine advances, owned.trans doomed.owned⟩

/-- A run is ended by the next step, at an instruction that passes, with a fault still ahead. -/
inductive Forestalled (host : Host σ) (evaluation : Evaluation) (state : σ) :
    Failure → σ → Prop where
  /-- The instruction aborts over the values that it finds on the stack. -/
  | aborted {instruction : Instruction} {operation : Operation} {failure : Failure}
      {admitted : σ} (admits : evaluation.Admits host state admitted)
      (clears : evaluation.machine.Clears instruction operation)
      (gives : evaluation.machine.Gives instruction operation failure)
      (aborts : instruction.Aborts failure) :
      Forestalled host evaluation state failure admitted
  /-- Fields as wide as a word leave the instruction without a result: the run breaks off. -/
  | strayed {admitted : σ} (admits : evaluation.Admits host state admitted)
      (strays : evaluation.machine.Strays) (wide : 256 ≤ evaluation.machine.layout.fieldBits) :
      Forestalled host evaluation state .undefined admitted
  /-- The instruction reads, writes or shows something, and the host refuses that. -/
  | refused {failure : Failure} {answered : σ}
      (unresolved : evaluation.Unresolved host state failure answered) :
      Forestalled host evaluation state failure answered

/-- A step that ends a run with a fault ahead has come to the fault, or ends it before. -/
theorem Doomed.ends_of_step (doomed : evaluation.Doomed space rejection)
    (permits : ∀ state instruction stack, (host.permit state instruction stack).1 = .ok ())
    (stepped : evaluation.step host state = (some exit, after, state')) :
    ∃ failure, exit = .failed failure ∧
      (failure = rejection.failure ∧ after.machine.StandsAt rejection ∨
        evaluation.Forestalled host state failure state') := by
  cases consults_of_step doomed.running stepped with
  | denied inspected answer =>
      have permitted := congrArg Prod.fst answer
      rw [admission, permits] at permitted
      cases permitted
  | exited admits exited =>
      have running := doomed.running.machine
      rcases doomed.awaits.of_exited doomed.roomy running doomed.running.framed exited with
        ⟨failure, rfl, met | ⟨instruction, operation, clears, gives⟩⟩
      · exact ⟨failure, rfl, Or.inl met⟩
      · refine ⟨failure, rfl, Or.inr ?_⟩
        rcases clears.aborts_or_strays running gives with aborts | ⟨rfl, strays⟩
        · exact .aborted admits clears gives aborts
        · exact .strayed admits strays strays.wide
  | refused admits trapped resolves =>
      exact ⟨_, rfl, Or.inr (.refused ⟨_, _, _, _, admits, trapped, resolves⟩)⟩

/--
A program that is rejected fails when it is run. With room for a value from each
instruction of its entry, the run exits with the failure of the rejection and
stands where the rejection says, unless it is ended before that. It is then ended by a
step that has the fault still ahead and is at an instruction which passes: the
instruction aborts, or it reads, writes or shows something and the host refuses that, or
the run breaks off because the layout has no result for it.
-/
theorem run_meets_rejected_fault {program : Program} {context : Context}
    {outputs stackLimit : Nat} {rejection : Rejection} {host : Host σ}
    (even : ∀ code ∈ program.sources, code.size % 2 = 0)
    (rejected : program.check context.bounds [outputs] = .error rejection)
    (ample : (program.unfold 0 0).length ≤ stackLimit)
    (permits : ∀ state instruction stack, (host.permit state instruction stack).1 = .ok ())
    (layout : Layout) (space : Word) (state : σ) :
    let evaluation := start (.start program context 0 outputs stackLimit layout) space
    let ended := evaluation.run host state
    ∃ failure, ended.1 = .failed failure ∧
      (failure = rejection.failure ∧ ended.2.1.machine.StandsAt rejection ∨
        ∃ steps, (∀ earlier < steps, (evaluation.stepAfter host state earlier).1 = none) ∧
          evaluation.stepAfter host state steps = (some (.failed failure), ended.2) ∧
          let now := evaluation.after host state steps
          now.1.machine.Awaits rejection ∧ now.1.Forestalled host now.2 failure ended.2.2) := by
  intro evaluation ended
  have doomed : evaluation.Doomed space rejection := doomed_start even rejected ample layout space
  rcases exists_last_moment (fun evaluation _ => evaluation.Doomed space rejection) Doomed.of_step
    doomed with ⟨steps, goesOn, doomedThen, last⟩
  rcases doomedThen.ends_of_step permits last with ⟨failure, failed, met | forestalled⟩
  · exact ⟨failure, failed, Or.inl met⟩
  · refine ⟨failure, failed, Or.inr ⟨steps, goesOn, ?_, doomedThen.awaits, forestalled⟩⟩
    rw [last, failed]

/--
The callee of the call at byte 2 leaves a value more than the call declares, so its
run fails at its end, to return behind the call.
-/
theorem run_meets_rejected_fault_called :
    let program : Program := ⟨#[#[0x00, 0, 0x03, 0x51], #[0x00, 0]], #[5]⟩
    let rejection : Rejection := ⟨0, 2, .stackMismatch 1 2⟩
    let host : Host (PlainHost SparseStore) := PlainHost.host
    let ended := (start (.start program ⟨[]⟩ 0 1 3 .standard) 7).run host ⟨{}, {}⟩
    (∀ code ∈ program.sources, code.size % 2 = 0) ∧
      program.check (Context.bounds ⟨[]⟩) [1] = .error rejection ∧
      (program.unfold 0 0).length ≤ 3 ∧
      (∀ state instruction stack, (host.permit state instruction stack).1 = .ok ()) ∧
      ended.1 = .failed (.stackMismatch 1 2) ∧ ended.2.1.machine.StandsAt rejection := by
  intro program rejection host ended
  have even : ∀ code ∈ program.sources, code.size % 2 = 0 := by decide
  have rejected : program.check (Context.bounds ⟨[]⟩) [1] = .error rejection := by decide +kernel
  have ample : (program.unfold 0 0).length ≤ 3 := by cbv
  have permits : ∀ state instruction stack, (host.permit state instruction stack).1 = .ok () :=
    fun _ _ _ => rfl
  have ran : ((start (.start program ⟨[]⟩ 0 1 3 .standard) 7).runFor host 4 ⟨{}, {}⟩).map
      Prod.fst = some (.failed (.stackMismatch 1 2)) := by decide +kernel
  have exited : ended.1 = .failed (.stackMismatch 1 2) := by
    rcases Option.map_eq_some_iff.mp ran with ⟨end', found, exit⟩
    rw [show ended = end' from run_of_runFor found]
    exact exit
  rcases run_meets_rejected_fault even rejected ample permits .standard 7 ⟨{}, {}⟩ with
    ⟨failure, failed, ⟨_, stands⟩ | ⟨steps, _, _, _, forestalled⟩⟩
  · exact ⟨even, rejected, ample, permits, exited, stands⟩
  · cases exited.symm.trans failed
    -- a mismatch is no abort, and a plain host over a sparse store refuses nothing
    cases forestalled with
    | aborted admits clears gives aborts =>
        rcases aborts with _ | ⟨_, aborts⟩
        cases aborts
    | refused unresolved =>
        rcases unresolved with ⟨_, _, _, _, _, _, resolves⟩
        cases resolves with
        | unread assigned popped answer => cases answer
        | unwritten assigned valuePopped keyPopped answer => cases answer
        | shown assigned named answer => cases answer

end Evaluation

end StackCert
