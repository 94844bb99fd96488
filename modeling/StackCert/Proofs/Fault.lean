import StackCert.Proofs.Outline

/-!
# Where certification finds a fault

A place in the code, reached with a number of values, is the end of its source,
or its instruction passes the tests that are made before it is run, or one of
these tests fails (`Program.Faults`). `Program.Falters` follows the code from a
place to a fault, as a derivation of `Program.Balanced` follows it to its end.
The fault may be in a callee. A callee may also come to its end with another
number of values than its caller declares, and then it is the call that is
blamed. A walk that is rejected is such a derivation, read off instruction by
instruction, if no limit is set on heights.
-/

namespace StackCert

namespace Program

/-- A test fails at a place. -/
inductive Faults (program : Program) (bounds : Bounds) (source position height : Nat) :
    Failure → Prop where
  /-- There is no such source. -/
  | absent (missing : program.sources[source]? = none) :
      Faults program bounds source position height .operandOutOfBounds
  | unassigned {instruction : Instruction} {failure : Failure}
      (held : program.Holds source position instruction)
      (unassigned : instruction.operation = .error failure) :
      Faults program bounds source position height failure
  | undescribed {instruction : Instruction} {operation : Operation} {failure : Failure}
      (held : program.Holds source position instruction)
      (assigned : instruction.operation = .ok operation)
      (undescribed : operation.effect instruction.operand = .error failure) :
      Faults program bounds source position height failure
  | underflow {instruction : Instruction} {operation : Operation} {effect : Effect}
      (held : program.Holds source position instruction)
      (assigned : instruction.operation = .ok operation)
      (described : operation.effect instruction.operand = .ok effect)
      (fewer : height < effect.pops) :
      Faults program bounds source position height .stackUnderflow
  /-- The operand names nothing. -/
  | operand {instruction : Instruction} {operation : Operation} {effect : Effect}
      (held : program.Holds source position instruction)
      (assigned : instruction.operation = .ok operation)
      (described : operation.effect instruction.operand = .ok effect)
      (enough : effect.pops ≤ height)
      (refused : program.admitsOperand bounds height operation instruction.operand = false) :
      Faults program bounds source position height .operandOutOfBounds
  /-- The callee is not a later source. -/
  | order {instruction : Instruction} {call : CallOperand}
      (held : program.Holds source position instruction)
      (assigned : instruction.operation = .ok .call)
      (named : CallOperand.ofByte instruction.operand = call)
      (enough : call.inputs ≤ height)
      (unordered : ¬(source < call.source ∧ call.source < program.sources.size)) :
      Faults program bounds source position height .operandOutOfBounds

/-- The code at a place leads to the fault that a rejection names. -/
inductive Falters (program : Program) (bounds : Bounds) :
    (source position height : Nat) → Rejection → Prop where
  | here {source position height : Nat} {failure : Failure}
      (faults : program.Faults bounds source position height failure) :
      Falters program bounds source position height ⟨source, position, failure⟩
  | run {source position height : Nat} {rejection : Rejection} {instruction : Instruction}
      {operation : Operation} {effect : Effect}
      (passes : program.Passes bounds source position height instruction operation effect)
      (plain : operation ≠ .call)
      (rest : Falters program bounds source (position + Instruction.width)
        (height - effect.pops + effect.pushes) rejection) :
      Falters program bounds source position height rejection
  | call {source position height peak : Nat} {rejection : Rejection} {instruction : Instruction}
      {call : CallOperand}
      (passes : program.Passes bounds source position height instruction .call
        ⟨call.inputs, call.outputs⟩)
      (named : CallOperand.ofByte instruction.operand = call)
      (callee : program.Balanced bounds call.source 0 call.inputs call.outputs peak)
      (rest : Falters program bounds source (position + Instruction.width)
        (height - call.inputs + call.outputs) rejection) :
      Falters program bounds source position height rejection
  /-- The fault is in the callee. -/
  | callee {source position height : Nat} {rejection : Rejection} {instruction : Instruction}
      {call : CallOperand}
      (passes : program.Passes bounds source position height instruction .call
        ⟨call.inputs, call.outputs⟩)
      (named : CallOperand.ofByte instruction.operand = call)
      (callee : Falters program bounds call.source 0 call.inputs rejection) :
      Falters program bounds source position height rejection
  /-- The callee ends with another number of values than declared. -/
  | mismatch {source position height actual peak : Nat} {instruction : Instruction}
      {call : CallOperand}
      (passes : program.Passes bounds source position height instruction .call
        ⟨call.inputs, call.outputs⟩)
      (named : CallOperand.ofByte instruction.operand = call)
      (callee : program.Balanced bounds call.source 0 call.inputs actual peak)
      (differs : actual ≠ call.outputs) :
      Falters program bounds source position height
        ⟨source, position, .stackMismatch call.outputs actual⟩

variable {program : Program} {bounds : Bounds} {source position height : Nat}
  {instruction : Instruction} {operation : Operation} {effect : Effect} {failure : Failure}
  {rejection : Rejection}

/-- What passes is no fault. -/
theorem Faults.not_passes (faults : program.Faults bounds source position height failure) :
    ¬program.Passes bounds source position height instruction operation effect := by
  intro passes
  cases faults with
  | absent missing =>
      rcases passes.held with ⟨code, found, _⟩
      cases missing.symm.trans found
  | unassigned held unassigned =>
      cases passes.held.unique held
      cases passes.assigned.symm.trans unassigned
  | undescribed held assigned undescribed =>
      cases passes.held.unique held
      cases passes.assigned.symm.trans assigned
      cases passes.described.symm.trans undescribed
  | underflow held assigned described fewer =>
      cases passes.held.unique held
      cases passes.assigned.symm.trans assigned
      cases passes.described.symm.trans described
      exact Nat.not_lt.mpr passes.enough fewer
  | operand held assigned described enough refused =>
      cases passes.held.unique held
      cases passes.assigned.symm.trans assigned
      cases passes.admitted.symm.trans refused
  | order held assigned named enough unordered =>
      cases passes.held.unique held
      cases passes.assigned.symm.trans assigned
      cases named
      exact unordered (passes.ordered rfl)

/-- No test is made where a source ends. -/
theorem Faults.not_endsAt (faults : program.Faults bounds source position height failure) :
    ¬program.EndsAt source position := by
  intro ended
  cases faults with
  | absent missing =>
      rcases ended with ⟨code, found, _⟩
      cases missing.symm.trans found
  | unassigned held => exact ended.not_holds held
  | undescribed held => exact ended.not_holds held
  | underflow held => exact ended.not_holds held
  | operand held => exact ended.not_holds held
  | order held => exact ended.not_holds held

/-- Code that falters has its fault here, or the instruction here passes. -/
theorem Falters.faults_or_passes
    (falters : program.Falters bounds source position height rejection) :
    (rejection.source = source ∧ rejection.position = position ∧
      program.Faults bounds source position height rejection.failure) ∨
    ∃ instruction operation effect,
      program.Passes bounds source position height instruction operation effect := by
  cases falters with
  | here faults => exact Or.inl ⟨rfl, rfl, faults⟩
  | run passes => exact Or.inr ⟨_, _, _, passes⟩
  | call passes => exact Or.inr ⟨_, _, _, passes⟩
  | callee passes => exact Or.inr ⟨_, _, _, passes⟩
  | mismatch passes => exact Or.inr ⟨_, _, _, passes⟩

theorem Falters.not_endsAt (falters : program.Falters bounds source position height rejection) :
    ¬program.EndsAt source position := by
  intro ended
  rcases falters.faults_or_passes with ⟨_, _, faults⟩ | ⟨_, _, _, passes⟩
  · exact faults.not_endsAt ended
  · exact ended.not_holds passes.held

theorem Falters.rest_of_plain (falters : program.Falters bounds source position height rejection)
    (passes : program.Passes bounds source position height instruction operation effect)
    (plain : operation ≠ .call) :
    program.Falters bounds source (position + Instruction.width)
      (height - effect.pops + effect.pushes) rejection := by
  -- Only one operation stands at the place, and it is no call.
  have same {instruction' : Instruction} {operation' : Operation} {effect' : Effect}
      (passes' : program.Passes bounds source position height instruction' operation' effect') :
      operation' = operation ∧ effect' = effect := by
    cases passes.held.unique passes'.held
    cases passes.assigned.symm.trans passes'.assigned
    cases passes.described.symm.trans passes'.described
    exact ⟨rfl, rfl⟩
  cases falters with
  | here faults => exact absurd passes faults.not_passes
  | run passes' _ rest =>
      rcases same passes' with ⟨_, rfl⟩
      exact rest
  | call passes' => exact absurd (same passes').1.symm plain
  | callee passes' => exact absurd (same passes').1.symm plain
  | mismatch passes' => exact absurd (same passes').1.symm plain

/-- What becomes of a call on the way to a fault. -/
theorem Falters.rest_of_call (falters : program.Falters bounds source position height rejection)
    {call : CallOperand}
    (passes : program.Passes bounds source position height instruction .call effect)
    (named : CallOperand.ofByte instruction.operand = call) :
    program.Falters bounds call.source 0 call.inputs rejection ∨
    (∃ actual peak, program.Balanced bounds call.source 0 call.inputs actual peak ∧
      actual ≠ call.outputs ∧
      rejection = ⟨source, position, .stackMismatch call.outputs actual⟩) ∨
    ∃ peak, program.Balanced bounds call.source 0 call.inputs call.outputs peak ∧
      program.Falters bounds source (position + Instruction.width)
        (height - call.inputs + call.outputs) rejection := by
  cases falters with
  | here faults => exact absurd passes faults.not_passes
  | run passes' plain =>
      cases passes.held.unique passes'.held
      cases passes.assigned.symm.trans passes'.assigned
      exact absurd rfl plain
  | call passes' named' callee rest =>
      cases passes.held.unique passes'.held
      cases named.symm.trans named'
      exact Or.inr (Or.inr ⟨_, callee, rest⟩)
  | callee passes' named' callee =>
      cases passes.held.unique passes'.held
      cases named.symm.trans named'
      exact Or.inl callee
  | mismatch passes' named' callee differs =>
      cases passes.held.unique passes'.held
      cases named.symm.trans named'
      exact Or.inr (Or.inl ⟨_, _, callee, differs, rfl⟩)

section Walks

variable {terms : Terms}
  (settled : ∀ callee inputs rejection, source < callee → callee < program.sources.size →
    program.outline terms callee inputs = .error rejection →
    program.Falters terms.bounds callee 0 inputs rejection)
include settled

/-- A call that a walk rejects is out of order, or its callee is at fault. -/
theorem falters_of_walkCall {call : CallOperand} {summary : Summary}
    (held : program.Holds source position instruction)
    (assigned : instruction.operation = .ok .call)
    (named : CallOperand.ofByte instruction.operand = call)
    (enough : call.inputs ≤ summary.height)
    (walked : (walkCall program source position (program.outlines terms source) call summary ()).1 =
      .error rejection) :
    program.Falters terms.bounds source position summary.height rejection := by
  unfold walkCall at walked
  split at walked
  · rename_i order
    have passes : program.Passes terms.bounds source position summary.height instruction .call
        ⟨call.inputs, call.outputs⟩ :=
      passes_call held assigned named enough order.1 order.2
    simp only [outlines] at walked
    cases outlined : program.outline terms call.source call.inputs with
    | error found =>
        rw [outlined] at walked
        cases walked
        exact .callee passes named (settled _ _ _ order.1 order.2 outlined)
    | ok callee =>
        rw [outlined] at walked
        simp only at walked
        split at walked
        · simp at walked
        · rename_i differs
          cases walked
          exact .mismatch passes named (balanced_of_outline outlined) differs
  · rename_i unordered
    cases walked
    exact .here (.order held assigned named enough unordered)

variable (limitless : terms.stackLimit = none)
include limitless

theorem falters_of_walkInstruction {summary : Summary}
    (held : program.Holds source position instruction)
    (walked : (walkInstruction program terms source position (program.outlines terms source)
      instruction summary ()).1 = .error rejection) :
    program.Falters terms.bounds source position summary.height rejection := by
  have unlimited (peak : Nat) : terms.exceededBy peak = false := by
    simp [Terms.exceededBy, limitless]
  unfold walkInstruction at walked
  split at walked
  · rename_i unassigned
    cases walked
    exact .here (.unassigned held unassigned)
  rename_i operation assigned
  split at walked
  · rename_i undescribed
    cases walked
    exact .here (.undescribed held assigned undescribed)
  rename_i effect described
  split at walked
  · rename_i fewer
    cases walked
    exact .here (.underflow held assigned described fewer)
  rename_i notFewer
  have enough := Nat.not_lt.mp notFewer
  simp only [unlimited] at walked
  split at walked
  · rename_i walkedOperation
    cases walked
    have failed := congrArg Prod.fst walkedOperation
    by_cases isCall : operation = .call
    · subst isCall
      cases described
      exact falters_of_walkCall settled held assigned rfl enough failed
    · simp only [walkOperation] at failed
      split at failed
      · simp at failed
      · rename_i refused
        cases failed
        exact .here (.operand held assigned described enough (Bool.eq_false_iff.mpr refused))
  · simp at walked

/-- A walk that is rejected comes to the fault. -/
theorem falters_of_walk {code : Code} (found : program.sources[source]? = some code)
    {instructions : List Instruction} {summary : Summary}
    (listed : Instruction.listOfBytes (code.toList.drop position) = instructions)
    (walked : (walk program terms source (program.outlines terms source) position instructions
      summary ()).1 = .error rejection) :
    program.Falters terms.bounds source position summary.height rejection := by
  induction instructions generalizing position summary with
  | nil => simp [walk] at walked
  | cons instruction instructions ih =>
      rw [Code.listOfBytes_drop] at listed
      split at listed
      · simp at listed
      rename_i instruction' inCode
      cases listed
      have held : program.Holds source position instruction := ⟨code, found, inCode⟩
      rw [walk] at walked
      split at walked
      · rename_i walkedFirst
        cases walked
        apply falters_of_walkInstruction settled limitless held
        exact congrArg Prod.fst walkedFirst
      · rename_i between _ walkedFirst
        have first := congrArg Prod.fst walkedFirst
        have rest := ih rfl walked
        rcases operation_of_walkInstruction first with ⟨operation, effect, assigned, described⟩
        by_cases isCall : operation = .call
        · subst isCall
          rcases (walkInstruction_call assigned rfl).mp first with
            ⟨enough, later, present, callee, outlined, agrees, rfl, _⟩
          have calleeBalanced := balanced_of_outline outlined
          rw [agrees] at calleeBalanced
          exact .call (passes_call held assigned rfl enough later present) rfl calleeBalanced rest
        · rcases (walkInstruction_plain assigned isCall described).mp first with
            ⟨enough, admitted, rfl, _⟩
          refine .run ⟨held, assigned, described, enough, admitted, ?_⟩ isCall rest
          intro isCall'
          exact absurd isCall' isCall

end Walks

/-- A source whose outline is rejected falters from its start. -/
theorem falters_of_outline {terms : Terms} (limitless : terms.stackLimit = none)
    (even : ∀ code ∈ program.sources, code.size % 2 = 0) {source inputs : Nat}
    {rejection : Rejection} (outlined : program.outline terms source inputs = .error rejection) :
    program.Falters terms.bounds source 0 inputs rejection := by
  have settled : ∀ callee inputs rejection, source < callee → callee < program.sources.size →
      program.outline terms callee inputs = .error rejection →
      program.Falters terms.bounds callee 0 inputs rejection := by
    intro callee inputs rejection later present outlined
    exact falters_of_outline limitless even outlined
  cases found : program.sources[source]? with
  | none =>
      rw [outline, found] at outlined
      cases outlined
      exact .here (.absent found)
  | some code =>
      have aligned : code.aligned = true :=
        Code.aligned_iff.mpr (even code (Array.mem_of_getElem? found))
      rw [outline_of_aligned found aligned] at outlined
      exact falters_of_walk settled limitless found rfl outlined
termination_by program.sources.size - source

/--
The entry source of a program that is rejected without a limit falters, or it ends
with another number of values than expected.
-/
theorem falters_or_mismatched_of_check {outputs : Nat}
    (even : ∀ code ∈ program.sources, code.size % 2 = 0)
    (rejected : program.check bounds [outputs] = .error rejection) :
    program.Falters bounds 0 0 0 rejection ∨
      ∃ actual peak, program.Balanced bounds 0 0 0 actual peak ∧ actual ≠ outputs ∧
        rejection = ⟨0, program.sourceSize 0, .stackMismatch outputs actual⟩ := by
  rcases checkEntries_eq_outlineEntries [outputs] 0 Summaries.faithful_nil with ⟨_, checked, _⟩
  simp only [check, Certifier.check] at rejected
  split at rejected
  · -- There is no entry source.
    rename_i few
    have empty : program.sources.size = 0 := Nat.lt_one_iff.mp few
    have atStart := (Except.error.inj rejected).symm
    rw [empty] at atStart
    rw [atStart]
    exact Or.inl (.here (.absent (by simp [empty])))
  · rw [checked] at rejected
    simp only [outlineEntries] at rejected
    split at rejected
    · rename_i outlined
      cases rejected
      exact Or.inl (falters_of_outline rfl even outlined)
    · rename_i summary outlined
      split at rejected
      · simp at rejected
      · rename_i differs
        cases rejected
        exact Or.inr ⟨summary.height, summary.peak, balanced_of_outline outlined, differs, rfl⟩

end Program

end StackCert
