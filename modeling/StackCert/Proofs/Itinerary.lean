import StackCert.Proofs.Inquiry

/-!
# The itinerary of an entry point

Code has no jumps and an effect is known from its instruction, so the
instructions that a run goes through, and the height of the stack in front of
each, are known without running anything: `Program.itinerary` lists them. An
instruction other than a call changes the height by its effect. A call changes
nothing by itself, since its inputs lie on the stack as the first values of the
callee, and the return from a source is no instruction.

Every run asks its host for a beginning of this list, whatever it reads and
whatever its host answers, and for all of it if it stops. An executor counts each
of these instructions once, so the length of the list is what a run that stops
has used, and no run stops within a smaller limit.
-/

namespace StackCert

namespace Instruction

/-- The height of the stack behind an instruction; a call leaves it to the callee. -/
def heightAfter (instruction : Instruction) (height : Nat) : Nat :=
  match instruction.call?, instruction.effect with
  | none, .ok effect => height - effect.pops + effect.pushes
  | _, _ => height

/-- Instructions with the height of the stack in front of each. -/
def withHeights : Nat → List Instruction → List (Instruction × Nat)
  | _, [] => []
  | height, instruction :: instructions =>
      (instruction, height) :: withHeights (instruction.heightAfter height) instructions

@[simp]
theorem map_fst_withHeights (height : Nat) (instructions : List Instruction) :
    (withHeights height instructions).map Prod.fst = instructions := by
  induction instructions generalizing height with
  | nil => rfl
  | cons instruction instructions ih => rw [withHeights, List.map_cons, ih]

theorem heightAfter_of_plain {instruction : Instruction} {operation : Operation} {effect : Effect}
    (assigned : instruction.operation = .ok operation) (plain : operation ≠ .call)
    (described : operation.effect instruction.operand = .ok effect) (height : Nat) :
    instruction.heightAfter height = height - effect.pops + effect.pushes := by
  simp only [heightAfter, call?_of_plain assigned plain, Instruction.effect, assigned, described]

theorem heightAfter_of_call {instruction : Instruction}
    (assigned : instruction.operation = .ok .call) (height : Nat) :
    instruction.heightAfter height = height := by
  simp only [heightAfter, call?_of_call assigned]

end Instruction

namespace Program

/-- The instructions that a run of a source goes through, with the heights in front of them. -/
def itinerary (program : Program) (source : Nat) : List (Instruction × Nat) :=
  Instruction.withHeights 0 (program.unfold source 0)

/-- The unfolding lists the instructions of a source, each call followed by its callee. -/
theorem unfold_eq_flatMap {program : Program} {source : Nat} {code : Code}
    (found : program.sources[source]? = some code) (position : Nat) :
    program.unfold source position =
      (Instruction.listOfBytes (code.toList.drop position)).flatMap fun instruction =>
        instruction :: program.unfoldCall source instruction := by
  -- The induction goes from the end of the source back to its start.
  induction ahead : code.size - position using Nat.strongRecOn generalizing position with
  | ind size ih =>
      rw [Code.listOfBytes_drop]
      cases held : code.instruction? position with
      | none => rw [unfold_of_instruction?_eq_none found held, List.flatMap_nil]
      | some instruction =>
          have inside := Code.lt_size_of_instruction? held
          have shorter : code.size - (position + Instruction.width) < size := by
            rw [Instruction.width]
            omega
          rw [unfold_of_instruction? found held, ih _ shorter _ rfl, List.flatMap_cons]

end Program

namespace Machine

/-- The instructions ahead of a machine, with the heights that they will find. -/
def course (machine : Machine) : List (Instruction × Nat) :=
  Instruction.withHeights machine.stack.size machine.ahead

theorem exists_course_eq (machine : Machine) :
    ∃ rest, machine.course =
      machine.inspect?.toList.map (fun instruction => (instruction, machine.stack.size)) ++
        rest := by
  cases inspected : machine.inspect? with
  | none => exact ⟨machine.course, rfl⟩
  | some instruction =>
      rcases holds_of_inspect? inspected with ⟨frame, callers, frames, code, found, held⟩
      rw [course, ahead, frames, List.flatMap_cons, Program.unfold_of_instruction? found held]
      exact ⟨_, rfl⟩

theorem course_of_endsAt {machine : Machine} {frame : Frame} (frames : machine.frames = [frame])
    (ended : machine.program.EndsAt frame.source frame.position) : machine.course = [] := by
  rcases ended with ⟨code, found, atEnd⟩
  have missing : code.instruction? frame.position = none :=
    Code.instruction?_eq_none_iff.mpr (by omega)
  rw [course, ahead, frames, List.flatMap_singleton,
    Program.unfold_of_instruction?_eq_none found missing]
  rfl

/-- A move takes the instruction that it runs, if any, and its height from the course. -/
theorem Advances.course_eq {machine after : Machine} (running : machine.status = none)
    (advances : machine.Advances after) :
    machine.course =
      machine.inspect?.toList.map (fun instruction => (instruction, machine.stack.size)) ++
        after.course := by
  rw [course, advances.ahead_eq running]
  cases advances with
  | run fetches plain admitted exchanges =>
      rw [inspect?_of_fetches running fetches]
      simp only [Option.toList_some, List.singleton_append, Instruction.withHeights,
        List.map_singleton, course,
        Instruction.heightAfter_of_plain fetches.assigned plain fetches.described, exchanges.size]
  | enter fetches named later present =>
      rw [inspect?_of_fetches running fetches]
      simp only [Option.toList_some, List.singleton_append, Instruction.withHeights,
        List.map_singleton, course, Instruction.heightAfter_of_call fetches.assigned]
  | leave frames ended full =>
      rw [inspect?_of_endsAt frames ended]
      rfl

end Machine

/-- The instruction of an inquiry with the height of the stack it was made over. -/
def Inquiry.station {σ : Type} (inquiry : Inquiry σ) : Instruction × Nat :=
  (inquiry.instruction, inquiry.stack.size)

namespace Evaluation

variable {σ : Type} {host : Host σ} {evaluation : Evaluation} {state : σ}

theorem map_station_inquiry? :
    (evaluation.inquiry? host state).toList.map Inquiry.station =
      evaluation.machine.inspect?.toList.map fun instruction =>
        (instruction, evaluation.machine.stack.size) := by
  unfold inquiry?
  cases evaluation.machine.inspect? <;> rfl

/-- A run asks for a beginning of its course, and for all of it if it stops. -/
theorem course_eq_inquiries {after : Evaluation} {state' : σ} {exit : Exit}
    (running : evaluation.Running) (ran : evaluation.run host state = (exit, after, state')) :
    ∃ rest, evaluation.machine.course =
        (evaluation.inquiries host state).map Inquiry.station ++ rest ∧
      (exit = .stopped → rest = []) := by
  induction evaluation, state using run.induct host with
  | case1 evaluation state stepped exit' ended =>
      rw [run_of_some ended, Prod.mk.injEq] at ran
      rcases ran with ⟨rfl, rest⟩
      rw [inquiries_of_some ended, map_station_inquiry?]
      rcases evaluation.machine.exists_course_eq with ⟨ahead, starts⟩
      refine ⟨ahead, starts, ?_⟩
      rintro rfl
      rcases endsAt_of_stopped running (Prod.ext ended rest) with ⟨frame, frames, atEnd, _, _⟩
      rw [Machine.course_of_endsAt frames atEnd] at starts
      exact (List.append_eq_nil_iff.mp starts.symm).2
  | case2 evaluation state stepped continues ih =>
      rw [run_of_none continues] at ran
      have goesOn : evaluation.step host state = (none, stepped.2.1, stepped.2.2) :=
        Prod.ext continues rfl
      have advances := (advances_of_step running goesOn).1
      rcases ih (running_of_step running goesOn) ran with ⟨rest, courseAfter, stops⟩
      refine ⟨rest, ?_, stops⟩
      rw [advances.course_eq running.machine, inquiries_of_none continues, List.map_append,
        map_station_inquiry?, List.append_assoc, ← courseAfter]

end Evaluation

namespace Settings

variable {σ : Type} [Store σ] {settings : Settings} {expression : Expression} {request : Request}
  {stepLimit : UInt64} {store : σ} {journal : Journal} {evaluation : Evaluation}

theorem course_of_opening? (opened : settings.opening? expression request = some evaluation) :
    evaluation.machine.course = expression.program.itinerary request.source := by
  rcases opening?_eq_some_iff.mp opened with ⟨outputs, height, _, _, _, rfl⟩
  rw [Evaluation.start, Machine.course, Machine.ahead_start]
  rfl

theorem map_station_isPrefix :
    (settings.inquiries expression request stepLimit store journal).map Inquiry.station <+:
      expression.program.itinerary request.source := by
  cases opened : settings.opening? expression request with
  | none =>
      simp only [inquiries, opened, List.map_nil]
      exact List.nil_prefix
  | some evaluation =>
      rcases Evaluation.course_eq_inquiries (running_of_opening? opened) rfl with ⟨rest, course, _⟩
      rw [course_of_opening? opened] at course
      simp only [inquiries, opened]
      exact ⟨rest, course.symm⟩

/-- An evaluation that returns values has asked for the whole itinerary and counted it. -/
theorem counts_of_returned {values : List Word}
    (returned : (settings.evaluateWithLimit expression request stepLimit store journal).1 =
      .ok values) :
    let itinerary := expression.program.itinerary request.source
    (settings.inquiries expression request stepLimit store journal).map Inquiry.station =
        itinerary ∧
      (settings.evaluateWithLimit expression request stepLimit store journal).2.meter.Counts
        stepLimit itinerary.length := by
  intro itinerary
  cases opened : settings.opening? expression request with
  | none =>
      rw [evaluateWithLimit_of_turnedAway opened] at returned
      simp at returned
  | some evaluation =>
      rcases ran : evaluation.run Executor.host (Executor.start store stepLimit journal) with
        ⟨exit, after, executor⟩
      rcases evaluateWithLimit_of_run opened ran with ⟨result, _, metered⟩
      have stopped := (Exit.result_eq_ok_iff.mp (result.symm.trans returned)).1
      subst stopped
      rcases Evaluation.course_eq_inquiries (running_of_opening? opened) ran with
        ⟨rest, course, stops⟩
      rw [course_of_opening? opened, stops rfl, List.append_nil] at course
      have concludes := Evaluation.concludes_execution (running_of_opening? opened) ran
      have counts := concludes.going_of_stopped
      rw [Nat.zero_add, ← List.length_map Inquiry.station, ← course] at counts
      rw [metered]
      simp only [inquiries, opened]
      exact ⟨course.symm, counts⟩

/--
All evaluations of an entry point follow one itinerary. Its instructions are those
of the source, with those of the callee behind each call. What an evaluation asks
its executor to permit is a beginning of it, and all of it if the evaluation
returns values; then its length is the number of steps used, and no evaluation
returns values with fewer.
-/
theorem evaluation_follows_itinerary (expression : Expression) (source : Nat) :
    let itinerary := expression.program.itinerary source
    itinerary.map Prod.fst = expression.program.unfold source 0 ∧
    (∀ code, expression.program.sources[source]? = some code →
      expression.program.unfold source 0 =
        (Instruction.listOfBytes code.toList).flatMap fun instruction =>
          instruction :: expression.program.unfoldCall source instruction) ∧
    ∀ {σ : Type} [Store σ] (settings : Settings) (context : Context) (space : Word)
      (stepLimit : UInt64) (store : σ) (journal : Journal),
      let request : Request := ⟨source, context, space⟩
      let result := settings.evaluateWithLimit expression request stepLimit store journal
      let asked :=
        (settings.inquiries expression request stepLimit store journal).map Inquiry.station
      asked <+: itinerary ∧
      (∀ values, result.1 = .ok values →
        asked = itinerary ∧ result.2.meter.used.toNat = itinerary.length) ∧
      (stepLimit.toNat < itinerary.length → ∀ values, result.1 ≠ .ok values) := by
  intro itinerary
  refine ⟨Instruction.map_fst_withHeights _ _, ?_, ?_⟩
  · intro code found
    rw [Program.unfold_eq_flatMap found, List.drop_zero]
  intro σ _ settings context space stepLimit store journal request result asked
  refine ⟨map_station_isPrefix, ?_, ?_⟩
  · intro values returned
    rcases counts_of_returned returned with ⟨whole, counts⟩
    exact ⟨whole, counts.used_eq⟩
  · intro short values returned
    have counts := (counts_of_returned returned).2
    have within := counts.within
    rw [counts.limit] at within
    exact absurd short (Nat.not_lt.mpr within)

/-- A called source adds a copy of its first input to both; its return takes no step. -/
theorem evaluation_follows_itinerary_called :
    let program : Program := ⟨#[#[0x00, 0, 0x00, 1, 0x03, 0x91], #[0x01, 0, 0x10, 3]], #[6, 7]⟩
    let expression : Expression := ⟨program, ⟨[]⟩, [1], [3]⟩
    let store : SparseStore := {}
    let itinerary : List (Instruction × Nat) :=
      [(⟨⟨0x00⟩, 0⟩, 0), (⟨⟨0x00⟩, 1⟩, 1), (⟨⟨0x03⟩, 0x91⟩, 2), (⟨⟨0x01⟩, 0⟩, 2), (⟨⟨0x10⟩, 3⟩, 3)]
    let evaluated := fun limit => standard.evaluateWithLimit expression {} limit store
    program.itinerary 0 = itinerary ∧ (evaluated 5).1 = .ok [19] ∧
      (standard.inquiries expression {} 5 store).map Inquiry.station = itinerary ∧
      (evaluated 5).2.meter.used.toNat = 5 ∧ ∀ values, (evaluated 4).1 ≠ .ok values := by
  intro program expression store itinerary evaluated
  have listed : program.itinerary 0 = itinerary := by cbv
  have returned : (evaluated 5).1 = .ok [19] ∧ (evaluated 5).2.store = store :=
    evaluateWithLimit_of_runFor 7 rfl (by decide +kernel)
  have five := (evaluation_follows_itinerary expression 0).2.2 standard {} 0 5 store {}
  have four := (evaluation_follows_itinerary expression 0).2.2 standard {} 0 4 store {}
  rw [show expression.program.itinerary 0 = _ from listed] at five four
  rcases five.2.1 [19] returned.1 with ⟨asked, used⟩
  exact ⟨listed, returned.1, asked, used, four.2.2 (by decide)⟩

end Settings

end StackCert
