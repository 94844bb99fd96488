import StackCert.Proofs.Balance

/-!
# Certification decides balance

The certifier keeps the summaries it has found, so that a source which is called
often is walked once for each number of inputs. `Program.outline` is the same
walk with nothing kept. As long as every kept summary is the outline of its
source, keeping them changes no answer, and every summary that is added is an
outline again; this holds after a rejection as well.

A walk that succeeds is a derivation of `Program.Balanced`, read off instruction
by instruction, and every derivation within the limit is found by the walk. So
the certifier accepts an entry point exactly if its source is balanced from an
empty frame, and the height it returns is the peak of the derivation.
-/

namespace StackCert

namespace Code

theorem aligned_iff {code : Code} : code.aligned = true ↔ code.size % 2 = 0 :=
  decide_eq_true_iff

theorem instruction?_eq_none_iff {code : Code} {position : Nat} :
    code.instruction? position = none ↔ code.size ≤ position + 1 := by
  constructor
  · intro missing
    apply Nat.le_of_not_lt
    intro inside
    have opcodeInside : position < code.size := by omega
    have operandInside : position + 1 < code.size := by omega
    simp [instruction?, opcodeInside, operandInside] at missing
  · intro outside
    cases found : code.instruction? position with
    | none => rfl
    | some instruction =>
        have inside := lt_size_of_instruction? found
        omega

/-- The instructions from a position on are the one there and those behind it. -/
theorem listOfBytes_drop (code : Code) (position : Nat) :
    Instruction.listOfBytes (code.toList.drop position) =
      match code.instruction? position with
      | none => []
      | some instruction =>
          instruction :: Instruction.listOfBytes
            (code.toList.drop (position + Instruction.width)) := by
  by_cases inside : position + 1 < code.size
  · have opcodeInside : position < code.toList.length := by
      rw [Array.length_toList]
      omega
    have operandInside : position + 1 < code.toList.length := by
      rw [Array.length_toList]
      omega
    have found : code.instruction? position =
        some ⟨⟨code.toList[position]⟩, code.toList[position + 1]⟩ := by
      have opcodeInside' : position < code.size := by omega
      simp [instruction?, opcodeInside', inside]
    rw [found, List.drop_eq_getElem_cons opcodeInside, List.drop_eq_getElem_cons operandInside]
    rfl
  · have missing : code.instruction? position = none :=
      instruction?_eq_none_iff.mpr (by omega)
    have short : (code.toList.drop position).length ≤ 1 := by
      rw [List.length_drop, Array.length_toList]
      omega
    rw [missing]
    rcases dropped : code.toList.drop position with _ | ⟨byte, _ | ⟨next, bytes⟩⟩
    · rfl
    · rfl
    · simp [dropped] at short

end Code

namespace Terms

theorem exceededBy_zero (terms : Terms) : terms.exceededBy 0 = false := by
  unfold exceededBy
  split
  · rfl
  · exact decide_eq_false (Nat.not_lt_zero _)

theorem exceededBy_of_le {terms : Terms} {lower upper : Nat} (order : lower ≤ upper)
    (within : terms.exceededBy upper = false) : terms.exceededBy lower = false := by
  simp only [exceededBy] at within ⊢
  split
  · rfl
  · simp_all only [decide_eq_false_iff_not]
    omega

theorem exceededBy_max {terms : Terms} {left right : Nat}
    (leftWithin : terms.exceededBy left = false) (rightWithin : terms.exceededBy right = false) :
    terms.exceededBy (max left right) = false := by
  rcases Nat.le_total left right with order | order
  · rw [Nat.max_eq_right order]
    exact rightWithin
  · rw [Nat.max_eq_left order]
    exact leftWithin

end Terms

namespace Program

variable {program : Program} {terms : Terms} {source : Nat} {State : Type}

/-- The summary of a source, found by walking it and everything it calls. -/
def outline (program : Program) (terms : Terms) (source inputs : Nat) :
    Except Rejection Summary :=
  match program.sources[source]? with
  | none => .error ⟨source, 0, .operandOutOfBounds⟩
  | some code =>
      if code.aligned then
        (walk program terms source
          (fun callee inputs _ _ _ => (program.outline terms callee inputs, ()))
          0 (Instruction.listOfBytes code.toList) ⟨inputs, inputs⟩ ()).1
      else .error ⟨source, code.size - 1, .malformedEncoding⟩
termination_by program.sources.size - source

/-- The outlines of the sources behind a given one. -/
def outlines (program : Program) (terms : Terms) (source : Nat) : program.Callees source Unit :=
  fun callee inputs _ _ _ => (program.outline terms callee inputs, ())

theorem outline_of_aligned {code : Code} (found : program.sources[source]? = some code)
    (aligned : code.aligned = true) (inputs : Nat) :
    program.outline terms source inputs =
      (walk program terms source (program.outlines terms source) 0
        (Instruction.listOfBytes code.toList) ⟨inputs, inputs⟩ ()).1 := by
  rw [outline, found]
  simp only [aligned, if_true]
  rfl

/-- Every request is answered with an outline, and a property of the state is kept. -/
def Callees.Answers (callees : program.Callees source State) (terms : Terms)
    (kept : State → Prop) : Prop :=
  ∀ callee inputs later present state, kept state → ∃ state',
    callees callee inputs later present state = (program.outline terms callee inputs, state') ∧
      kept state'

section Answers

variable {callees : program.Callees source State} {kept : State → Prop}
  (answers : callees.Answers terms kept)
include answers

theorem walkCall_outlines (position : Nat) (call : CallOperand) (summary : Summary) {state : State}
    (held : kept state) :
    ∃ state', walkCall program source position callees call summary state =
        ((walkCall program source position (program.outlines terms source) call summary ()).1,
          state') ∧
      kept state' := by
  simp only [walkCall]
  by_cases order : source < call.source ∧ call.source < program.sources.size
  · rcases answers call.source call.inputs order.1 order.2 state held with
      ⟨state', answered, held'⟩
    refine ⟨state', ?_, held'⟩
    simp only [order, and_self, ↓reduceDIte, outlines, answered]
    cases program.outline terms call.source call.inputs with
    | error rejection => rfl
    | ok callee =>
        simp only
        split
        · rfl
        · rfl
  · refine ⟨state, ?_, held⟩
    simp only [order, ↓reduceDIte]

theorem walkOperation_outlines (bounds : Bounds) (position : Nat) (operation : Operation)
    (operand : UInt8) (summary : Summary) {state : State} (held : kept state) :
    ∃ state', walkOperation program bounds source position callees operation operand summary state =
        ((walkOperation program bounds source position (program.outlines terms source) operation
          operand summary ()).1, state') ∧
      kept state' := by
  by_cases isCall : operation = .call
  · subst isCall
    exact walkCall_outlines answers position (CallOperand.ofByte operand) summary held
  · refine ⟨state, ?_, held⟩
    unfold walkOperation
    split
    · exact absurd rfl isCall
    · split
      · rfl
      · rfl

theorem walkInstruction_outlines (position : Nat) (instruction : Instruction) (summary : Summary)
    {state : State} (held : kept state) :
    ∃ state', walkInstruction program terms source position callees instruction summary state =
        ((walkInstruction program terms source position (program.outlines terms source) instruction
          summary ()).1, state') ∧
      kept state' := by
  simp only [walkInstruction]
  cases instruction.operation with
  | error failure => exact ⟨state, rfl, held⟩
  | ok operation =>
      simp only
      cases operation.effect instruction.operand with
      | error failure => exact ⟨state, rfl, held⟩
      | ok effect =>
          by_cases fewer : summary.height < effect.pops
          · refine ⟨state, ?_, held⟩
            simp only [fewer, ↓reduceIte]
          · rcases walkOperation_outlines answers terms.bounds position operation
              instruction.operand summary held with ⟨state', walked, held'⟩
            refine ⟨state', ?_, held'⟩
            simp only [fewer, ↓reduceIte, walked]
            rcases walkOperation program terms.bounds source position
              (program.outlines terms source) operation instruction.operand summary () with
              ⟨result, _⟩
            cases result with
            | error rejection => rfl
            | ok between =>
                simp only
                split
                · rfl
                · rfl

/-- A walk answered with outlines finds what the walk finds that keeps nothing. -/
theorem walk_outlines (instructions : List Instruction) (position : Nat) (summary : Summary)
    {state : State} (held : kept state) :
    ∃ state', walk program terms source callees position instructions summary state =
        ((walk program terms source (program.outlines terms source) position instructions
          summary ()).1, state') ∧
      kept state' := by
  induction instructions generalizing position summary state with
  | nil => exact ⟨state, rfl, held⟩
  | cons instruction instructions ih =>
      rcases walkInstruction_outlines answers position instruction summary held with
        ⟨between, walked, heldBetween⟩
      simp only [walk]
      rw [walked]
      rcases walkInstruction program terms source position (program.outlines terms source)
        instruction summary () with ⟨result, _⟩
      cases result with
      | error rejection => exact ⟨between, rfl, heldBetween⟩
      | ok afterwards => exact ih (position + Instruction.width) afterwards heldBetween

end Answers

/-- Every summary that is kept is the outline of its source. -/
def Summaries.Faithful (known : Summaries) (program : Program) (terms : Terms) : Prop :=
  ∀ source inputs summary, known.lookup (source, inputs) = some summary →
    program.outline terms source inputs = .ok summary

theorem Summaries.faithful_nil : Summaries.Faithful [] program terms := by
  intro source inputs summary found
  simp at found

theorem Summaries.Faithful.cons {known : Summaries} {inputs : Nat} {summary : Summary}
    (faithful : known.Faithful program terms)
    (outlined : program.outline terms source inputs = .ok summary) :
    Summaries.Faithful (((source, inputs), summary) :: known) program terms := by
  intro source' inputs' summary' found
  rw [List.lookup_cons] at found
  split at found
  · rename_i same
    cases eq_of_beq same
    cases found
    exact outlined
  · exact faithful source' inputs' summary' found

/-- Keeping summaries changes no answer, and only outlines are kept. -/
theorem summarize_eq_outline (source inputs : Nat) {known : Summaries}
    (faithful : known.Faithful program terms) :
    ∃ known', program.summarize terms source inputs known =
        (program.outline terms source inputs, known') ∧
      Summaries.Faithful known' program terms := by
  -- Calls go forward, so the sources behind this one may be taken as settled.
  let callees : program.Callees source Summaries :=
    fun callee inputs _ _ known => program.summarize terms callee inputs known
  have answers : callees.Answers terms (fun known => known.Faithful program terms) :=
    fun callee inputs later present known faithful =>
      summarize_eq_outline callee inputs faithful
  rw [summarize]
  split
  · rename_i summary found
    refine ⟨known, ?_, faithful⟩
    rw [faithful source inputs summary found]
  · split
    · rename_i missing
      refine ⟨known, ?_, faithful⟩
      rw [outline, missing]
    · rename_i code found
      split
      · rename_i aligned
        have outlined : program.outline terms source inputs = _ :=
          outline_of_aligned found aligned inputs
        rcases walk_outlines answers (Instruction.listOfBytes code.toList) 0 ⟨inputs, inputs⟩
          faithful with ⟨known', walked, faithful'⟩
        rw [walked, ← outlined]
        cases result : program.outline terms source inputs with
        | error rejection => exact ⟨known', rfl, faithful'⟩
        | ok summary => exact ⟨_, rfl, faithful'.cons result⟩
      · rename_i misaligned
        refine ⟨known, ?_, faithful⟩
        rw [outline, found]
        simp only [misaligned, Bool.false_eq_true, ↓reduceIte]
termination_by program.sources.size - source

theorem operation_of_walkInstruction {position : Nat} {instruction : Instruction}
    {summary after : Summary}
    (walked : (walkInstruction program terms source position (program.outlines terms source)
      instruction summary ()).1 = .ok after) :
    ∃ operation effect, instruction.operation = .ok operation ∧
      operation.effect instruction.operand = .ok effect := by
  unfold walkInstruction at walked
  split at walked
  · simp at walked
  · rename_i operation assigned
    split at walked
    · simp at walked
    · rename_i effect described
      exact ⟨operation, effect, assigned, described⟩

theorem walkInstruction_plain {position : Nat} {instruction : Instruction} {operation : Operation}
    {effect : Effect} {summary after : Summary} (assigned : instruction.operation = .ok operation)
    (plain : operation ≠ .call) (described : operation.effect instruction.operand = .ok effect) :
    (walkInstruction program terms source position (program.outlines terms source) instruction
        summary ()).1 = .ok after ↔
      effect.pops ≤ summary.height ∧
        program.admitsOperand terms.bounds summary.height operation instruction.operand = true ∧
        summary.apply effect = after ∧ terms.exceededBy after.peak = false := by
  simp only [walkInstruction, assigned, described]
  by_cases fewer : summary.height < effect.pops
  · simp only [fewer, ↓reduceIte, reduceCtorEq, false_iff]
    omega
  · by_cases admitted : program.admitsOperand terms.bounds summary.height operation
        instruction.operand = true
    · by_cases exceeded : terms.exceededBy (summary.apply effect).peak = true
      · simp only [fewer, walkOperation, admitted, exceeded, ↓reduceIte, reduceCtorEq, false_iff]
        rintro ⟨_, _, rfl, within⟩
        simp [within] at exceeded
      · simp only [fewer, walkOperation, admitted, exceeded, Bool.false_eq_true, ↓reduceIte,
          Except.ok.injEq, true_and]
        constructor
        · rintro rfl
          exact ⟨by omega, rfl, by simpa using exceeded⟩
        · rintro ⟨_, same, _⟩
          exact same
    · simp [fewer, walkOperation, admitted]

theorem walkInstruction_call {position : Nat} {instruction : Instruction} {call : CallOperand}
    {summary after : Summary} (assigned : instruction.operation = .ok .call)
    (named : CallOperand.ofByte instruction.operand = call) :
    (walkInstruction program terms source position (program.outlines terms source) instruction
        summary ()).1 = .ok after ↔
      call.inputs ≤ summary.height ∧ source < call.source ∧
        call.source < program.sources.size ∧
        ∃ callee, program.outline terms call.source call.inputs = .ok callee ∧
          callee.height = call.outputs ∧
          (summary.around call.inputs callee).apply ⟨call.inputs, call.outputs⟩ = after ∧
          terms.exceededBy after.peak = false := by
  simp only [walkInstruction, assigned, Operation.effect, named]
  by_cases fewer : summary.height < call.inputs
  · simp only [fewer, ↓reduceIte, reduceCtorEq, false_iff]
    omega
  · by_cases order : source < call.source ∧ call.source < program.sources.size
    · have enough : call.inputs ≤ summary.height := by omega
      simp only [fewer, walkOperation, walkCall, outlines, named, order, and_self, enough,
        ↓reduceIte, ↓reduceDIte, true_and]
      cases program.outline terms call.source call.inputs with
      | error rejection => simp
      | ok callee =>
          by_cases agrees : callee.height = call.outputs
          · simp only [agrees, ↓reduceIte, Except.ok.injEq]
            split
            · rename_i exceeded
              simp only [reduceCtorEq, false_iff]
              rintro ⟨_, rfl, _, rfl, within⟩
              simp [within] at exceeded
            · rename_i notExceeded
              simp only [Except.ok.injEq]
              constructor
              · rintro rfl
                exact ⟨callee, rfl, agrees, rfl, by simpa using notExceeded⟩
              · rintro ⟨_, rfl, _, same, _⟩
                exact same
          · simp only [agrees, ↓reduceIte, reduceCtorEq, false_iff]
            rintro ⟨_, found, agrees', _⟩
            cases found
            exact agrees agrees'
    · simp only [fewer, walkOperation, walkCall, named, order, ↓reduceIte, ↓reduceDIte,
        reduceCtorEq, false_iff]
      rintro ⟨_, later, present, _⟩
      exact order ⟨later, present⟩

theorem walk_cons {position : Nat} {instruction : Instruction} {instructions : List Instruction}
    {summary after : Summary} :
    (walk program terms source (program.outlines terms source) position
        (instruction :: instructions) summary ()).1 = .ok after ↔
      ∃ between, (walkInstruction program terms source position (program.outlines terms source)
          instruction summary ()).1 = .ok between ∧
        (walk program terms source (program.outlines terms source)
          (position + Instruction.width) instructions between ()).1 = .ok after := by
  rw [walk]
  rcases walkInstruction program terms source position (program.outlines terms source) instruction
    summary () with ⟨result, _⟩
  cases result with
  | error rejection => simp
  | ok between => simp

/--
A walk that succeeds is a derivation, provided that the outlines of the sources
behind the walked one are.
-/
theorem balanced_of_walk {code : Code} (found : program.sources[source]? = some code)
    (settled : ∀ callee inputs summary, source < callee → callee < program.sources.size →
      program.outline terms callee inputs = .ok summary →
      program.Balanced terms.bounds callee 0 inputs summary.height summary.peak)
    {instructions : List Instruction} {position : Nat} {summary after : Summary}
    (listed : Instruction.listOfBytes (code.toList.drop position) = instructions)
    (parity : position % 2 = code.size % 2) (inside : position ≤ code.size)
    (tall : summary.height ≤ summary.peak)
    (walked : (walk program terms source (program.outlines terms source) position instructions
      summary ()).1 = .ok after) :
    ∃ peak, program.Balanced terms.bounds source position summary.height after.height peak ∧
      after.peak = max summary.peak peak := by
  -- The position keeps the parity of the size, so no byte is left where no instruction is.
  induction instructions generalizing position summary with
  | nil =>
      have atEnd : position = code.size := by
        rw [Code.listOfBytes_drop] at listed
        split at listed
        · rename_i missing
          have outside := Code.instruction?_eq_none_iff.mp missing
          omega
        · simp at listed
      simp only [walk, Except.ok.injEq] at walked
      subst walked
      refine ⟨summary.height, .finish ⟨code, found, atEnd⟩, ?_⟩
      exact (Nat.max_eq_left tall).symm
  | cons instruction instructions ih =>
      rw [Code.listOfBytes_drop] at listed
      split at listed
      · simp at listed
      · rename_i instruction' held
        cases listed
        have insideNext := Code.lt_size_of_instruction? held
        rcases walk_cons.mp walked with ⟨between, walkedFirst, walkedRest⟩
        have continues : between.height ≤ between.peak → _ := fun tallBetween =>
          ih rfl (by simp only [Instruction.width]; omega)
            (by simp only [Instruction.width]; omega) tallBetween walkedRest
        rcases operation_of_walkInstruction walkedFirst with
          ⟨operation, effect, assigned, described⟩
        by_cases isCall : operation = .call
        · subst isCall
          rcases (walkInstruction_call assigned rfl).mp walkedFirst with
            ⟨enough, later, present, callee, outlined, agrees, rfl, _⟩
          have calleeBalanced := settled _ _ callee later present outlined
          have calleeTall := calleeBalanced.height_le_peak
          rw [agrees] at calleeBalanced
          rcases continues (Nat.le_max_right _ _) with ⟨peak, restBalanced, peakEq⟩
          refine ⟨_, .call ⟨code, found, held⟩ assigned rfl enough later calleeBalanced
            restBalanced, ?_⟩
          have restTall := restBalanced.height_le_peak
          simp only [Summary.apply, Summary.around] at peakEq restTall ⊢
          omega
        · rcases (walkInstruction_plain assigned isCall described).mp walkedFirst with
            ⟨enough, admitted, rfl, _⟩
          rcases continues (Nat.le_max_right _ _) with ⟨peak, restBalanced, peakEq⟩
          refine ⟨_, .run ⟨code, found, held⟩ assigned isCall described enough admitted
            restBalanced, ?_⟩
          have restTall := restBalanced.height_le_peak
          simp only [Summary.apply] at peakEq restTall ⊢
          omega

theorem balanced_of_outline {source inputs : Nat} {summary : Summary}
    (outlined : program.outline terms source inputs = .ok summary) :
    program.Balanced terms.bounds source 0 inputs summary.height summary.peak := by
  have settled : ∀ callee inputs summary, source < callee → callee < program.sources.size →
      program.outline terms callee inputs = .ok summary →
      program.Balanced terms.bounds callee 0 inputs summary.height summary.peak :=
    fun callee inputs summary later present outlined => balanced_of_outline outlined
  cases found : program.sources[source]? with
  | none =>
      rw [outline, found] at outlined
      simp at outlined
  | some code =>
      by_cases aligned : code.aligned = true
      · rw [outline_of_aligned found aligned] at outlined
        have even := Code.aligned_iff.mp aligned
        rcases balanced_of_walk found settled rfl (by omega) (Nat.zero_le _) (Nat.le_refl inputs)
          outlined with ⟨peak, balanced, peakEq⟩
        have tall := balanced.height_le_peak
        rw [show summary.peak = peak by simp only at peakEq tall; omega]
        exact balanced
      · rw [outline, found] at outlined
        simp [aligned] at outlined
termination_by program.sources.size - source

/-- Every derivation within the limit is found by the walk. -/
theorem walk_of_balanced {position height outputs peak : Nat} {code : Code}
    (balanced : program.Balanced terms.bounds source position height outputs peak)
    (found : program.sources[source]? = some code) (within : terms.exceededBy peak = false) :
    position % 2 = code.size % 2 ∧
      ∀ start, height ≤ start → terms.exceededBy start = false →
        (walk program terms source (program.outlines terms source) position
          (Instruction.listOfBytes (code.toList.drop position)) ⟨height, start⟩ ()).1 =
            .ok ⟨outputs, max start peak⟩ := by
  induction balanced generalizing code with
  | finish ended =>
      rcases ended with ⟨code', found', rfl⟩
      cases found.symm.trans found'
      refine ⟨rfl, ?_⟩
      intro start tall startWithin
      rw [List.drop_eq_nil_of_le (by simp), Nat.max_eq_left tall]
      rfl
  | run held assigned plain described enough admitted rest ih =>
      rename_i source position height outputs peak instruction operation effect
      rcases held with ⟨code', found', held⟩
      cases found.symm.trans found'
      have restWithin := Terms.exceededBy_of_le (Nat.le_max_right _ _) within
      have restTall := rest.height_le_peak
      rcases ih found restWithin with ⟨parity, walked⟩
      refine ⟨by simp only [Instruction.width] at parity; omega, ?_⟩
      intro start tall startWithin
      have nextWithin : terms.exceededBy (height - effect.pops + effect.pushes) = false :=
        Terms.exceededBy_of_le restTall restWithin
      rw [Code.listOfBytes_drop, held]
      refine walk_cons.mpr ⟨Summary.apply ⟨height, start⟩ effect, ?_, ?_⟩
      · exact (walkInstruction_plain assigned plain described).mpr
          ⟨enough, admitted, rfl, Terms.exceededBy_max startWithin nextWithin⟩
      · have after := walked (max start (height - effect.pops + effect.pushes))
          (Nat.le_max_right _ _) (Terms.exceededBy_max startWithin nextWithin)
        rw [show max start (max height peak) =
          max (max start (height - effect.pops + effect.pushes)) peak by omega]
        exact after
  | call held assigned named enough later callee rest ihCallee ihRest =>
      rename_i source position height outputs calleePeak peak instruction call
      rcases held with ⟨code', found', held⟩
      cases found.symm.trans found'
      have calleeWithin : terms.exceededBy (height - call.inputs + calleePeak) = false :=
        Terms.exceededBy_of_le (Nat.le_max_left _ _) within
      have restWithin := Terms.exceededBy_of_le (Nat.le_max_right _ _) within
      have calleeTall := callee.height_le_peak
      have restTall := rest.height_le_peak
      rcases callee.exists_code with ⟨calleeCode, calleeFound⟩
      have present := callee.source_lt_size
      have calleeAlone : terms.exceededBy calleePeak = false :=
        Terms.exceededBy_of_le (Nat.le_add_left _ _) calleeWithin
      rcases ihCallee calleeFound calleeAlone with ⟨calleeParity, calleeWalked⟩
      have aligned : calleeCode.aligned = true := Code.aligned_iff.mpr calleeParity.symm
      have outlined : program.outline terms call.source call.inputs =
          .ok ⟨call.outputs, calleePeak⟩ := by
        rw [outline_of_aligned calleeFound aligned]
        have walked := calleeWalked call.inputs (Nat.le_refl _)
          (Terms.exceededBy_of_le calleeTall calleeAlone)
        rw [List.drop_zero, Nat.max_eq_right calleeTall] at walked
        exact walked
      rcases ihRest found restWithin with ⟨parity, walked⟩
      refine ⟨by simp only [Instruction.width] at parity; omega, ?_⟩
      intro start tall startWithin
      let between : Summary :=
        (Summary.around ⟨height, start⟩ call.inputs ⟨call.outputs, calleePeak⟩).apply
          ⟨call.inputs, call.outputs⟩
      have betweenWithin : terms.exceededBy between.peak = false := by
        apply Terms.exceededBy_max (Terms.exceededBy_max startWithin calleeWithin)
        exact Terms.exceededBy_of_le restTall restWithin
      rw [Code.listOfBytes_drop, held]
      refine walk_cons.mpr ⟨between, ?_, ?_⟩
      · exact (walkInstruction_call assigned named).mpr
          ⟨enough, later, present, _, outlined, rfl, rfl, betweenWithin⟩
      · have after := walked between.peak (Nat.le_max_right _ _) betweenWithin
        have peaks : max start (max (height - call.inputs + calleePeak) peak) =
            max between.peak peak := by
          simp only [between, Summary.apply, Summary.around]
          omega
        rw [peaks]
        exact after

theorem outline_of_balanced {inputs outputs peak : Nat}
    (balanced : program.Balanced terms.bounds source 0 inputs outputs peak)
    (within : terms.exceededBy peak = false) :
    program.outline terms source inputs = .ok ⟨outputs, peak⟩ := by
  rcases balanced.exists_code with ⟨code, found⟩
  have tall := balanced.height_le_peak
  rcases walk_of_balanced balanced found within with ⟨parity, walked⟩
  have aligned : code.aligned = true := Code.aligned_iff.mpr parity.symm
  have reached := walked inputs (Nat.le_refl _) (Terms.exceededBy_of_le tall within)
  rw [List.drop_zero, Nat.max_eq_right tall] at reached
  rw [outline_of_aligned found aligned]
  exact reached

section Limit

variable {callees : program.Callees source State} {summary after : Summary} {state : State}

/-- The limit is looked at after every instruction. -/
theorem within_of_walkInstruction {position : Nat} {instruction : Instruction}
    (walked : (walkInstruction program terms source position callees instruction summary state).1 =
      .ok after) : terms.exceededBy after.peak = false := by
  unfold walkInstruction at walked
  split at walked
  · cases walked
  · split at walked
    · cases walked
    · split at walked
      · cases walked
      · split at walked
        · cases walked
        · dsimp only at walked
          split at walked
          · cases walked
          · rename_i within
            cases walked
            exact eq_false_of_ne_true within

theorem within_of_walk {instructions : List Instruction} {position : Nat}
    (started : terms.exceededBy summary.peak = false)
    (walked : (walk program terms source callees position instructions summary state).1 =
      .ok after) : terms.exceededBy after.peak = false := by
  induction instructions generalizing position summary state with
  | nil =>
      simp only [walk, Except.ok.injEq] at walked
      exact walked ▸ started
  | cons instruction instructions ih =>
      rw [walk] at walked
      split at walked
      · cases walked
      · rename_i between state' walkedFirst
        exact ih (within_of_walkInstruction (congrArg Prod.fst walkedFirst)) walked

end Limit

/--
No peak exceeds the limit unless the inputs do already: those of a source without
instructions are not looked at.
-/
theorem within_of_outline {inputs : Nat} {summary : Summary}
    (started : terms.exceededBy inputs = false)
    (outlined : program.outline terms source inputs = .ok summary) :
    terms.exceededBy summary.peak = false := by
  rw [outline] at outlined
  split at outlined
  · simp at outlined
  · split at outlined
    · apply within_of_walk _ outlined
      exact started
    · simp at outlined

/-- The peaks of the sources from an index on, found without keeping summaries. -/
def outlineEntries (program : Program) (terms : Terms) :
    Nat → List Nat → Except Rejection (List Nat)
  | _, [] => .ok []
  | source, expected :: outputs =>
      match program.outline terms source 0 with
      | .error rejection => .error rejection
      | .ok summary =>
          if summary.height = expected then
            match program.outlineEntries terms (source + 1) outputs with
            | .error rejection => .error rejection
            | .ok heights => .ok (summary.peak :: heights)
          else
            .error ⟨source, program.sourceSize source, .stackMismatch expected summary.height⟩

theorem checkEntries_eq_outlineEntries (outputs : List Nat) (source : Nat) {known : Summaries}
    (faithful : known.Faithful program terms) :
    ∃ known', program.checkEntries terms source outputs known =
        (program.outlineEntries terms source outputs, known') ∧
      Summaries.Faithful known' program terms := by
  induction outputs generalizing source known with
  | nil => exact ⟨known, rfl, faithful⟩
  | cons expected outputs ih =>
      rcases summarize_eq_outline source 0 faithful with ⟨between, summarized, faithfulBetween⟩
      rw [checkEntries, outlineEntries, summarized]
      cases program.outline terms source 0 with
      | error rejection => exact ⟨between, rfl, faithfulBetween⟩
      | ok summary =>
          by_cases agrees : summary.height = expected
          · rcases ih (source + 1) faithfulBetween with ⟨known', checked, faithful'⟩
            refine ⟨known', ?_, faithful'⟩
            simp only [agrees, ↓reduceIte, checked]
            cases program.outlineEntries terms (source + 1) outputs with
            | error rejection => rfl
            | ok heights => rfl
          · refine ⟨between, ?_, faithfulBetween⟩
            simp only [agrees, ↓reduceIte]

theorem outlineEntries_cons {expected : Nat} {outputs heights : List Nat} :
    program.outlineEntries terms source (expected :: outputs) = .ok heights ↔
      ∃ height rest, heights = height :: rest ∧
        program.outline terms source 0 = .ok ⟨expected, height⟩ ∧
        program.outlineEntries terms (source + 1) outputs = .ok rest := by
  rw [outlineEntries]
  cases program.outline terms source 0 with
  | error rejection => simp
  | ok summary =>
      rcases summary with ⟨height, peak⟩
      by_cases agrees : height = expected
      · subst agrees
        cases program.outlineEntries terms (source + 1) outputs with
        | error rejection => simp
        | ok rest => simp [eq_comm]
      · simp [agrees]

/-- Entries are accepted with the peaks of the outlines that end as expected. -/
theorem outlineEntries_eq_ok_iff {outputs heights : List Nat} :
    program.outlineEntries terms source outputs = .ok heights ↔
      heights.length = outputs.length ∧
        ∀ index expected height, outputs[index]? = some expected →
          heights[index]? = some height →
          program.outline terms (source + index) 0 = .ok ⟨expected, height⟩ := by
  induction outputs generalizing source heights with
  | nil => simp [outlineEntries, eq_comm]
  | cons first outputs ih =>
      rw [outlineEntries_cons]
      constructor
      · rintro ⟨height, rest, rfl, outlined, accepted⟩
        rcases ih.mp accepted with ⟨length, outlines⟩
        refine ⟨congrArg Nat.succ length, ?_⟩
        intro index expected peak expectedFound peakFound
        cases index with
        | zero =>
            cases expectedFound
            cases peakFound
            exact outlined
        | succ index =>
            rw [Nat.add_comm index, ← Nat.add_assoc]
            exact outlines index expected peak expectedFound peakFound
      · rintro ⟨length, outlines⟩
        cases heights with
        | nil => simp at length
        | cons height rest =>
            refine ⟨height, rest, rfl, outlines 0 first height rfl rfl, ?_⟩
            refine ih.mpr ⟨Nat.succ.inj length, ?_⟩
            intro index expected peak expectedFound peakFound
            rw [Nat.add_assoc, Nat.add_comm 1]
            exact outlines (index + 1) expected peak expectedFound peakFound

/-- The answer to a request for which every source is walked anew at each call. -/
def appraise (program : Program) (terms : Terms) (outputs : List Nat) :
    Except Rejection (List Nat) :=
  if program.sources.size < outputs.length then
    .error ⟨program.sources.size, 0, .operandOutOfBounds⟩
  else program.outlineEntries terms 0 outputs

end Program

namespace Certifier

open Program

variable {program : Program} {terms : Terms}

/-- Every summary that is kept is the outline of its source. -/
def Faithful (certifier : Certifier) : Prop :=
  certifier.summaries.Faithful certifier.program certifier.terms

/-- The certifier with other summaries. -/
def knowing (certifier : Certifier) (summaries : Summaries) : Certifier :=
  { certifier with summaries }

theorem faithful_fresh (program : Program) (terms : Terms) :
    Faithful ⟨program, terms, []⟩ :=
  Summaries.faithful_nil

/-- A request is answered as if nothing were kept, and only outlines are kept. -/
theorem check_eq_appraise {certifier : Certifier} (faithful : certifier.Faithful)
    (outputs : List Nat) :
    ∃ known, certifier.check outputs =
        (certifier.program.appraise certifier.terms outputs, certifier.knowing known) ∧
      (certifier.knowing known).Faithful := by
  unfold check appraise
  by_cases tooMany : certifier.program.sources.size < outputs.length
  · refine ⟨certifier.summaries, ?_, faithful⟩
    simp only [tooMany, ↓reduceIte]
    rfl
  · rcases checkEntries_eq_outlineEntries outputs 0 faithful with ⟨known, checked, faithful'⟩
    refine ⟨known, ?_, faithful'⟩
    simp only [tooMany, ↓reduceIte, checked]
    rfl

/-- A fresh certifier accepts exactly the entries whose sources exist and have the right outline. -/
theorem check_eq_ok_iff {outputs heights : List Nat} :
    (Certifier.check ⟨program, terms, []⟩ outputs).1 = .ok heights ↔
      outputs.length ≤ program.sources.size ∧
        program.outlineEntries terms 0 outputs = .ok heights := by
  rcases check_eq_appraise (faithful_fresh program terms) outputs with ⟨_, checked, _⟩
  rw [checked, appraise]
  split
  · rename_i tooMany
    simp [Nat.not_le.mpr tooMany]
  · rename_i few
    simp [Nat.not_lt.mp few]

/--
A fresh certifier accepts with certain heights exactly if they are the peaks of
entry points that are balanced from an empty frame, and none exceeds the limit.
-/
theorem check_eq_ok_iff_balanced {outputs heights : List Nat} :
    (Certifier.check ⟨program, terms, []⟩ outputs).1 = .ok heights ↔
      heights.length = outputs.length ∧
        ∀ source expected height, outputs[source]? = some expected →
          heights[source]? = some height →
          program.Balanced terms.bounds source 0 0 expected height ∧
            terms.exceededBy height = false := by
  rw [check_eq_ok_iff, outlineEntries_eq_ok_iff]
  constructor
  · rintro ⟨_, length, outlines⟩
    refine ⟨length, ?_⟩
    intro source expected height expectedFound heightFound
    have outlined := outlines source expected height expectedFound heightFound
    rw [Nat.zero_add] at outlined
    exact ⟨balanced_of_outline outlined, within_of_outline terms.exceededBy_zero outlined⟩
  · rintro ⟨length, balanced⟩
    refine ⟨?_, length, ?_⟩
    · -- An entry point beyond the last source would not be balanced.
      apply Nat.le_of_not_lt
      intro more
      rcases balanced _ _ _ (List.getElem?_eq_getElem more)
        (List.getElem?_eq_getElem (length ▸ more)) with ⟨derivation, _⟩
      exact Nat.lt_irrefl _ derivation.source_lt_size
    · intro source expected height expectedFound heightFound
      rcases balanced source expected height expectedFound heightFound with ⟨derivation, within⟩
      rw [Nat.zero_add]
      exact outline_of_balanced derivation within

/-- Every accepted entry point is balanced from an empty frame, with its height as the peak. -/
theorem balanced_of_check {outputs heights : List Nat}
    (accepted : (Certifier.check ⟨program, terms, []⟩ outputs).1 = .ok heights)
    {source expected : Nat} (found : outputs[source]? = some expected) :
    ∃ peak, heights[source]? = some peak ∧
      program.Balanced terms.bounds source 0 0 expected peak := by
  rcases check_eq_ok_iff_balanced.mp accepted with ⟨length, balanced⟩
  have inside : source < heights.length := length ▸ (List.getElem?_eq_some_iff.mp found).1
  have heightFound := List.getElem?_eq_getElem inside
  exact ⟨_, heightFound, (balanced source expected _ found heightFound).1⟩

/-- Entry points that are balanced within the limit are accepted. -/
theorem check_of_balanced {outputs : List Nat}
    (balanced : ∀ source expected, outputs[source]? = some expected →
      ∃ peak, program.Balanced terms.bounds source 0 0 expected peak ∧
        terms.exceededBy peak = false) :
    ∃ heights, (Certifier.check ⟨program, terms, []⟩ outputs).1 = .ok heights := by
  have peaked (entry : Fin outputs.length) :=
    balanced entry _ (List.getElem?_eq_getElem entry.isLt)
  rcases Classical.skolem.mp peaked with ⟨peak, peaks⟩
  refine ⟨List.ofFn peak, check_eq_ok_iff_balanced.mpr ⟨List.length_ofFn, ?_⟩⟩
  intro source expected height expectedFound heightFound
  rcases List.getElem?_eq_some_iff.mp expectedFound with ⟨inside, rfl⟩
  rw [List.getElem?_ofFn, dif_pos inside] at heightFound
  cases heightFound
  exact peaks ⟨source, inside⟩

/-- A program is accepted with the heights of another one whose balance carries over to it. -/
theorem check_of_balanced_imp {program' : Program} {bounds bounds' : Bounds} {limit : Option Nat}
    {outputs heights : List Nat}
    (carries : ∀ {source expected peak : Nat}, program.Balanced bounds source 0 0 expected peak →
      program'.Balanced bounds' source 0 0 expected peak)
    (accepted : (Certifier.check ⟨program, ⟨bounds, limit⟩, []⟩ outputs).1 = .ok heights) :
    (Certifier.check ⟨program', ⟨bounds', limit⟩, []⟩ outputs).1 = .ok heights := by
  rcases check_eq_ok_iff_balanced.mp accepted with ⟨length, balanced⟩
  apply check_eq_ok_iff_balanced.mpr
  refine ⟨length, ?_⟩
  intro source expected height expectedFound heightFound
  rcases balanced source expected height expectedFound heightFound with ⟨derivation, within⟩
  exact ⟨carries derivation, within⟩

end Certifier

end StackCert
