import StackCert.Proofs.Arithmetic
import StackCert.Proofs.Inquiry
import StackCert.Proofs.Outline
import StackCert.Proofs.Soundness

/-!
# Straight-line code

A source that neither calls another nor needs the host makes words of words, one
instruction after the other: `Program.Makes` follows them without a machine, with the
number of instructions and the highest stack met on the way. Such a derivation is all
that is needed to deploy the source and to evaluate it. It shows that the code is
balanced, with the same peak, and it tells how each step of the machine goes, so that
only the host can end a run early, by denying one of the instructions counted.
-/

namespace StackCert

namespace Operation

/--
What an operation makes of the words of a frame: it takes some from the top and gives one,
and the others are kept.
-/
inductive Makes (program : Program) (context : Context) (layout : Layout) (operand : UInt8) :
    Operation → (kept taken : List Word) → Word → Prop where
  | constant {words : List Word} {word : Word}
      (found : program.constants[operand.toNat]? = some word) :
      Makes program context layout operand .constant words [] word
  | slot {words : List Word} {word : Word} (found : words[operand.toNat]? = some word) :
      Makes program context layout operand .stack words [] word
  | cell {words : List Word} {word : Word}
      (found : context.get? (CellOperand.ofByte operand).column (CellOperand.ofByte operand).row =
        some word) :
      Makes program context layout operand .context words [] word
  | reduced {reducer : Reducer} {kept taken : List Word} {word : Word}
      (counted : reducer.arity operand = .ok taken.length)
      (combined : reducer.combine layout operand taken = .ok word) :
      Makes program context layout operand (.reduce reducer) kept taken word

namespace Makes

variable {program : Program} {context : Context} {layout : Layout} {operand : UInt8}
  {operation : Operation} {kept taken : List Word} {word : Word}

theorem effect_eq (makes : operation.Makes program context layout operand kept taken word) :
    operation.effect operand = .ok ⟨taken.length, 1⟩ := by
  cases makes with
  | constant | slot | cell => rfl
  | reduced counted => simp [Operation.effect, counted, Except.map]

theorem ne_call (makes : operation.Makes program context layout operand kept taken word) :
    operation ≠ .call := by
  cases makes <;> simp

theorem admitsOperand (makes : operation.Makes program context layout operand kept taken word) :
    program.admitsOperand context.bounds (kept ++ taken).length operation operand = true := by
  cases makes with
  | constant found => simpa [Program.admitsOperand] using (Array.getElem?_eq_some_iff.mp found).1
  | slot found => simpa [Program.admitsOperand] using (List.getElem?_eq_some_iff.mp found).1
  | cell found => simp [Program.admitsOperand, Context.contains_bounds, found]
  | reduced => rfl

/-- A machine that has room for the word runs the operation. -/
theorem perform_eq {machine : Machine} (frame : Frame)
    (makes : operation.Makes machine.program machine.context machine.layout operand kept taken word)
    (values : machine.stack.toList = kept ++ taken) (outermost : frame.base = 0)
    (room : kept.length < machine.stack.limit) :
    ∃ stack, machine.perform frame operation operand = .next stack ∧
      stack.toList = kept ++ [word] ∧ stack.limit = machine.stack.limit := by
  -- in each case a word is pushed onto a stack that holds what is kept
  obtain ⟨below, performed, left, limit⟩ : ∃ below : Stack,
      machine.perform frame operation operand = Machine.pushing below (.ok word) ∧
        below.toList = kept ∧ below.limit = machine.stack.limit := by
    cases makes with
    | constant found =>
        refine ⟨machine.stack, ?_, by simpa using values, rfl⟩
        rw [Machine.perform, Program.constant_eq_ok_iff.mpr found]
    | slot found =>
        refine ⟨machine.stack, ?_, by simpa using values, rfl⟩
        rw [List.append_nil] at values
        rw [Machine.perform, outermost, Nat.zero_add, Stack.get_eq_ok_iff.mpr (by rwa [values])]
    | cell found =>
        refine ⟨machine.stack, ?_, by simpa using values, rfl⟩
        rw [Machine.perform, Context.cell_eq_ok_iff.mpr found]
    | reduced counted combined =>
        rcases Machine.perform_reduce frame counted values with ⟨below, left, limit, _, performed⟩
        rw [combined] at performed
        exact ⟨below, performed, left, limit⟩
  have free : below.size < below.limit := by
    rw [← Stack.length_toList, left, limit]
    exact room
  rcases Machine.pushed_of_room free word with ⟨stack, went, behind, sameLimit⟩
  rw [left] at behind
  exact ⟨stack, performed.trans went, behind, sameLimit.trans limit⟩

end Makes

end Operation

namespace Program

/--
The words that a source makes, from a position to its end, of those on the stack. The
instructions are counted, and the peak is the highest stack in front of or behind one.
-/
inductive Makes (program : Program) (context : Context) (layout : Layout) (source : Nat) :
    (position : Nat) → (words : List Word) → (count peak : Nat) → (result : List Word) → Prop where
  | finish {position : Nat} {result : List Word} (ended : program.EndsAt source position) :
      Makes program context layout source position result 0 result.length result
  | run {position count peak : Nat} {word : Word} {result : List Word} (operation : Operation)
      (operand : UInt8) (kept taken : List Word)
      (held : program.Holds source position ⟨operation.opcode, operand⟩)
      (makes : operation.Makes program context layout operand kept taken word)
      (rest : Makes program context layout source (position + Instruction.width) (kept ++ [word])
        count peak result) :
      Makes program context layout source position (kept ++ taken) (count + 1)
        (max (kept ++ taken).length peak) result

namespace Makes

variable {program : Program} {context : Context} {layout : Layout} {source position count : Nat}
  {peak : Nat} {words result : List Word}

theorem balanced (makes : program.Makes context layout source position words count peak result) :
    program.Balanced context.bounds source position words.length result.length peak := by
  induction makes with
  | finish ended => exact .finish ended
  | run operation operand kept taken held makes rest ih =>
      refine .run held (operation.assigned operand) makes.ne_call makes.effect_eq ?_
        makes.admitsOperand ?_
      · simp
      · simpa using ih

theorem length_le_peak
    (makes : program.Makes context layout source position words count peak result) :
    words.length ≤ peak := makes.balanced.height_le_peak

end Makes

end Program

namespace Machine

variable {machine : Machine} {source left : Nat} {result : List Word}

/-- The machine runs its only frame, and the instructions left make the result. -/
structure Nears (machine : Machine) (source left : Nat) (result : List Word) : Prop where
  running : machine.status = none
  stands : ∃ position peak, machine.frames = [⟨source, position, 0, result.length⟩] ∧
    machine.program.Makes machine.context machine.layout source position machine.stack.toList left
      peak result ∧
    peak ≤ machine.stack.limit

theorem nears_start {program : Program} {context : Context} {layout : Layout} {peak : Nat}
    (makes : program.Makes context layout source 0 [] left peak result) :
    (start program context source result.length peak layout).Nears source left result :=
  ⟨rfl, 0, peak, rfl, makes, Nat.le_refl peak⟩

/-- With nothing left the machine stops, and else it goes on with an instruction less. -/
theorem Nears.step_eq (nears : machine.Nears source left result) :
    (left = 0 ∧ machine.inspect? = none ∧ machine.stack.toList = result ∧
      machine.step = (.exited .stopped, { machine with frames := [] }.exit .stopped)) ∨
    ∃ fewer next, left = fewer + 1 ∧ machine.step = (.continued, next) ∧
      next.Nears source fewer result := by
  rcases nears with ⟨running, position, peak, frames, makes, room⟩
  generalize isWords : machine.stack.toList = words at makes
  cases makes with
  | finish ended =>
      refine Or.inl ⟨rfl, inspect?_of_endsAt frames ended, rfl, ?_⟩
      have full : machine.stack.size = result.length := by rw [← Stack.length_toList, isWords]
      rw [step_of_endsAt running frames ended, leave, if_pos (by simpa using full)]
      rfl
  | @run _ fewer restPeak word _ operation operand kept taken held makes rest =>
      let frame : Frame := ⟨source, position, 0, result.length⟩
      have fetches : machine.Fetches frame [] ⟨operation.opcode, operand⟩ operation
          ⟨taken.length, 1⟩ := by
        refine ⟨frames, held, operation.assigned operand, makes.effect_eq, ?_⟩
        simp [frame, Stack.size_eq_of_toList isWords]
      have within : restPeak ≤ machine.stack.limit := Nat.le_trans (Nat.le_max_right _ _) room
      have above := rest.length_le_peak
      rw [List.length_append, List.length_singleton] at above
      rcases makes.perform_eq frame isWords rfl (by omega) with ⟨stack, performed, behind, limit⟩
      refine Or.inr ⟨fewer, { machine with frames := [frame.advance], stack }, rfl, ?_, ?_⟩
      · rw [step_of_fetches running fetches, performed, follow]
      · refine ⟨running, position + Instruction.width, restPeak, rfl, ?_, ?_⟩
        · simpa only [behind] using rest
        · simpa only [limit] using within

end Machine

namespace Evaluation

variable {σ : Type} {host : Host σ} {going : Nat → σ → Prop} {denied : Nat → Failure → σ → Prop}
  {refused : Failure → σ → Prop}

/--
A run of straight-line code stops with the words it makes, unless the host denies one of
its instructions. Nothing else is asked of the host.
-/
theorem stops_or_denied_of_nears {space : Word} (keeps : host.Keeps space going denied refused)
    {evaluation after : Evaluation} {state state' : σ} {exit : Exit} {source total : Nat}
    {result : List Word} (running : evaluation.Running) (owned : evaluation.space = space)
    (nears : evaluation.machine.Nears source total result) (held : going 0 state)
    (ran : evaluation.run host state = (exit, after, state')) :
    (exit = .stopped ∧ after.machine.stack.toList = result) ∨
      ∃ count < total, ∃ failure, exit = .failed failure ∧ denied count failure state' := by
  refine run_induction
    (fun evaluation state => evaluation.Running ∧ evaluation.space = space ∧
      ∃ count left, count + left ≤ total ∧ evaluation.machine.Nears source left result ∧
        going count state)
    (fun exit after state => (exit = .stopped ∧ after.machine.stack.toList = result) ∨
      ∃ count < total, ∃ failure, exit = .failed failure ∧ denied count failure state)
    ?_ ?_ ⟨running, owned, 0, total, by omega, nears, held⟩ ran
  · rintro evaluation after state state' ⟨running, rfl, count, left, within, nears, held⟩ stepped
    have runs := running_of_step running stepped
    rcases nears.step_eq with ⟨_, _, _, stopped⟩ | ⟨fewer, next, rfl, continued, nearer⟩
    · cases consults_of_step running stepped with
      | alone _ machineStepped => cases stopped.symm.trans machineStepped
      | resolved _ machineStepped => cases stopped.symm.trans machineStepped
    · cases consults_of_step running stepped with
      | resolved _ machineStepped => cases continued.symm.trans machineStepped
      | alone admits machineStepped =>
          cases continued.symm.trans machineStepped
          cases admits with
          | unasked => exact ⟨runs, rfl, count, fewer, by omega, nearer, held⟩
          | @permitted instruction _ inspected answer =>
              have settled := settles_admission keeps held instruction
              rw [answer] at settled
              exact ⟨runs, rfl, count + 1, fewer, by omega, nearer, settled⟩
  · rintro evaluation after state state' exit ⟨running, rfl, count, left, within, nears, held⟩
      stepped
    rcases nears.step_eq with ⟨_, nothing, words, stopped⟩ | ⟨fewer, next, rfl, continued, _⟩
    · cases consults_of_step running stepped with
      | denied inspected => cases nothing.symm.trans inspected
      | refused _ machineStepped => cases stopped.symm.trans machineStepped
      | exited _ machineStepped =>
          cases stopped.symm.trans machineStepped
          exact Or.inl ⟨rfl, words⟩
    · cases consults_of_step running stepped with
      | exited _ machineStepped => cases continued.symm.trans machineStepped
      | refused _ machineStepped => cases continued.symm.trans machineStepped
      | @denied instruction failure _ _ answer =>
          have settled := settles_admission keeps held instruction
          rw [answer] at settled
          exact Or.inr ⟨count, by omega, failure, rfl, settled⟩

end Evaluation

namespace Settings

variable {settings : Settings} {program : Program} {context : Context} {layout : Layout}
  {count peak : Nat} {result : List Word}

theorem deploy_of_makes (makes : program.Makes context layout 0 0 [] count peak result)
    (room : peak ≤ settings.stackLimit) :
    settings.deploy program context.bounds [result.length] =
      .ok ⟨program, context.bounds, [result.length], [peak]⟩ := by
  refine deploy_eq_ok_iff.mpr ⟨[peak], Certifier.check_eq_ok_iff_balanced.mpr ⟨rfl, ?_⟩, rfl⟩
  intro source expected height isExpected isHeight
  cases source with
  | zero =>
      cases isExpected
      cases isHeight
      exact ⟨makes.balanced, by simpa [Terms.exceededBy] using room⟩
  | succ => simp at isExpected

/-- Straight-line code evaluates to the words it makes, given a step for each instruction. -/
theorem evaluateWithLimit_of_makes {σ : Type} [Store σ]
    (makes : program.Makes context settings.layout 0 0 [] count peak result) {stepLimit : UInt64}
    (steps : count ≤ stepLimit.toNat) (space : Word) (store : σ) (journal : Journal) :
    (settings.evaluateWithLimit ⟨program, context.bounds, [result.length], [peak]⟩
      { context, space } stepLimit store journal).1 = .ok result := by
  have opened : settings.opening? ⟨program, context.bounds, [result.length], [peak]⟩
      { context, space } = some (.start (.start program context 0 result.length peak
        settings.layout) space) :=
    opening?_eq_some_iff.mpr ⟨_, _, rfl, rfl, context.bounds_satisfiedBy, rfl⟩
  rcases ran : Evaluation.run Executor.host (.start (.start program context 0 result.length peak
    settings.layout) space) (Executor.start store stepLimit journal) with ⟨exit, after, executor⟩
  rw [(evaluateWithLimit_of_run opened ran).1]
  rcases Evaluation.stops_or_denied_of_nears (Executor.host_keeps space stepLimit)
    (running_of_opening? opened) rfl (Machine.nears_start makes)
    (Meter.counts_ofLimit stepLimit) ran with
    ⟨rfl, words⟩ | ⟨denied, few, failure, _, _, exhausted⟩
  · simp [Exit.result, words]
  · omega

end Settings

end StackCert
