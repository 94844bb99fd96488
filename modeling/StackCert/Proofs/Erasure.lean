import StackCert.Proofs.CertifiedCells
import StackCert.Proofs.FrameOrder

/-!
# Debug instructions can be erased

A debug instruction neither takes nor leaves values. It asks the host to show
something and is counted by the meter, and that is all. `Program.eraseDebug`
drops the debug instructions of every source, so what stood behind them moves
forward: `Program.erasedPosition` says where to.

A derivation of `Program.Balanced` stays one without its debug instructions, with
the same peak. A run is compared with that of the erased program by taking the
erased machine for the plain one in disguise. Where the plain machine is at any
other instruction, or at the end of a source, the disguise fits. Where it is at a
debug instruction, only the plain evaluation takes a step, after which the
disguise is the same as before. The erased evaluation has thus never counted more
instructions than the plain one, and it does not run out first.
-/

namespace StackCert

namespace Instruction

/-- Whether an instruction stays when those for debugging are erased. -/
def lasts (instruction : Instruction) : Bool := instruction.opcode ≠ Operation.debug.opcode

theorem lasts_eq {instruction : Instruction} {operation : Operation}
    (assigned : instruction.operation = .ok operation) :
    instruction.lasts = decide (operation ≠ .debug) := by
  have opcode := Opcode.eq_opcode_of_operation? (operation_eq_ok_iff.mp assigned)
  rw [lasts, opcode, decide_eq_decide]
  apply not_congr
  constructor
  · intro same
    have found := Opcode.operation?_opcode operation
    rw [same, Opcode.operation?_opcode] at found
    exact (Option.some.inj found).symm
  · rintro rfl
    rfl

theorem width_pos : 0 < width := Nat.two_pos

theorem length_listOfBytes (bytes : List UInt8) :
    (listOfBytes bytes).length = bytes.length / width := by
  fun_induction listOfBytes bytes with
  | case1 opcode operand bytes ih =>
      simp only [List.length_cons, ih, width]
      omega
  | case2 bytes short =>
      rcases bytes with _ | ⟨opcode, _ | ⟨operand, bytes⟩⟩
      · rfl
      · simp [width]
      · exact absurd rfl (short opcode operand bytes)

theorem drop_listOfBytes (bytes : List UInt8) (index : Nat) :
    (listOfBytes bytes).drop index = listOfBytes (bytes.drop (width * index)) := by
  induction index generalizing bytes with
  | zero => rfl
  | succ index ih =>
      rcases bytes with _ | ⟨opcode, _ | ⟨operand, bytes⟩⟩
      · simp [listOfBytes]
      · simp [listOfBytes, width, Nat.mul_succ]
      · exact ih bytes

end Instruction

/-- A debug instruction names something to be shown, and the stack is as high as before. -/
theorem Operation.style_of_effect {operand : UInt8} {effect : Effect}
    (described : Operation.effect .debug operand = .ok effect) :
    effect = ⟨0, 0⟩ ∧ ∃ style, DebugStyle.ofNat? operand.toNat = some style := by
  unfold Operation.effect at described
  cases named : DebugStyle.ofNat? operand.toNat with
  | none => simp [named] at described
  | some style =>
      simp only [named, Option.isNone_some, Bool.false_eq_true, ↓reduceIte] at described
      cases described
      exact ⟨rfl, style, rfl⟩

namespace Code

theorem instruction?_width_mul (code : Code) (index : Nat) :
    code.instruction? (Instruction.width * index) =
      (Instruction.listOfBytes code.toList)[index]? := by
  have dropped := code.listOfBytes_drop (Instruction.width * index)
  rw [← Instruction.drop_listOfBytes] at dropped
  rw [← List.head?_drop, dropped]
  cases code.instruction? (Instruction.width * index) <;> rfl

@[simp]
theorem listOfBytes_assemble (instructions : List Instruction) :
    Instruction.listOfBytes (assemble instructions).toList = instructions := by
  simp only [assemble]
  induction instructions with
  | nil => rfl
  | cons instruction instructions ih =>
      simpa [Instruction.bytes, Instruction.listOfBytes] using ih

@[simp]
theorem size_assemble (instructions : List Instruction) :
    (assemble instructions).size = Instruction.width * instructions.length := by
  simp only [assemble, List.size_toArray]
  induction instructions with
  | nil => rfl
  | cons instruction instructions ih =>
      simp only [List.flatMap_cons, List.length_append, ih, Instruction.bytes, List.length_cons,
        List.length_nil, Instruction.width]
      omega

@[simp]
theorem aligned_assemble (instructions : List Instruction) :
    (assemble instructions).aligned = true := by
  rw [aligned, size_assemble, Nat.mul_mod_right]
  rfl

/-- The source without its debug instructions. -/
def eraseDebug (code : Code) : Code :=
  assemble ((Instruction.listOfBytes code.toList).filter Instruction.lasts)

/-- Where the instruction at a position stands without the debug instructions before it. -/
def erasedPosition (code : Code) (position : Nat) : Nat :=
  Instruction.width * (((Instruction.listOfBytes code.toList).take
    (position / Instruction.width)).filter Instruction.lasts).length

@[simp]
theorem erasedPosition_zero (code : Code) : code.erasedPosition 0 = 0 := by
  simp [erasedPosition]

theorem erasedPosition_size (code : Code) :
    code.erasedPosition code.size = code.eraseDebug.size := by
  have whole : (Instruction.listOfBytes code.toList).length ≤ code.size / Instruction.width := by
    rw [Instruction.length_listOfBytes, Array.length_toList]
  rw [erasedPosition, List.take_of_length_le whole, eraseDebug, size_assemble]

variable {code : Code} {position : Nat} {instruction : Instruction}

theorem erasedPosition_next (even : position % Instruction.width = 0)
    (found : code.instruction? position = some instruction) :
    code.erasedPosition (position + Instruction.width) =
      code.erasedPosition position + if instruction.lasts then Instruction.width else 0 := by
  rcases Nat.dvd_of_mod_eq_zero even with ⟨index, rfl⟩
  rw [instruction?_width_mul] at found
  rw [erasedPosition, erasedPosition, Nat.add_div_right _ Instruction.width_pos,
    Nat.mul_div_cancel_left index Instruction.width_pos, List.take_add_one, found]
  cases lasts : instruction.lasts <;> simp [lasts, Nat.mul_add]

theorem instruction?_eraseDebug (even : position % Instruction.width = 0)
    (found : code.instruction? position = some instruction) (lasts : instruction.lasts = true) :
    code.eraseDebug.instruction? (code.erasedPosition position) = some instruction := by
  rcases Nat.dvd_of_mod_eq_zero even with ⟨index, rfl⟩
  rw [instruction?_width_mul] at found
  rw [erasedPosition, Nat.mul_div_cancel_left index Instruction.width_pos, eraseDebug,
    instruction?_width_mul, listOfBytes_assemble]
  generalize Instruction.listOfBytes code.toList = instructions at found
  rcases List.getElem?_eq_some_iff.mp found with ⟨inside, rfl⟩
  -- What lasts before the position, the instruction there and what lasts behind it.
  have kept : instructions.filter Instruction.lasts =
      (instructions.take index).filter Instruction.lasts ++
        instructions[index] :: (instructions.drop (index + 1)).filter Instruction.lasts := by
    rw [← List.filter_cons_of_pos lasts, ← List.drop_eq_getElem_cons inside,
      ← List.filter_append, List.take_append_drop]
  rw [kept]
  simp

end Code

namespace Program

/-- The program without its debug instructions. -/
def eraseDebug (program : Program) : Program :=
  { program with sources := program.sources.map Code.eraseDebug }

/-- Where the instruction at a position of a source stands in the erased program. -/
def erasedPosition (program : Program) (source position : Nat) : Nat :=
  match program.sources[source]? with
  | some code => code.erasedPosition position
  | none => position

@[simp]
theorem erasedPosition_zero (program : Program) (source : Nat) :
    program.erasedPosition source 0 = 0 := by
  unfold erasedPosition
  split <;> simp

/-- The instructions of a source stay in their order, except that none is for debugging. -/
theorem instructions_eraseDebug {program : Program} {source : Nat}
    {instructions : List Instruction} (listed : program.instructions source = .ok instructions) :
    program.eraseDebug.instructions source = .ok (instructions.filter Instruction.lasts) := by
  unfold Program.instructions at listed
  split at listed
  · simp at listed
  · rename_i code found
    split at listed
    · cases listed
      simp [Program.instructions, eraseDebug, found, Code.eraseDebug]
    · simp at listed

variable {program : Program} {bounds : Bounds} {source position : Nat}
  {instruction : Instruction}

theorem EndsAt.eraseDebug (ended : program.EndsAt source position) :
    program.eraseDebug.EndsAt source (program.erasedPosition source position) := by
  rcases ended with ⟨code, found, rfl⟩
  refine ⟨code.eraseDebug, by simp [Program.eraseDebug, found], ?_⟩
  simp only [erasedPosition, found, Code.erasedPosition_size]

section Held

variable (even : position % Instruction.width = 0)
  (held : program.Holds source position instruction)
include even held

theorem Holds.eraseDebug (lasts : instruction.lasts = true) :
    program.eraseDebug.Holds source (program.erasedPosition source position) instruction := by
  rcases held with ⟨code, found, held⟩
  refine ⟨code.eraseDebug, by simp [Program.eraseDebug, found], ?_⟩
  simp only [erasedPosition, found]
  exact Code.instruction?_eraseDebug even held lasts

theorem erasedPosition_of_lasts (lasts : instruction.lasts = true) :
    program.erasedPosition source (position + Instruction.width) =
      program.erasedPosition source position + Instruction.width := by
  rcases held with ⟨code, found, held⟩
  simp only [erasedPosition, found, Code.erasedPosition_next even held, lasts, ↓reduceIte]

theorem erasedPosition_of_debug (erased : instruction.lasts = false) :
    program.erasedPosition source (position + Instruction.width) =
      program.erasedPosition source position := by
  rcases held with ⟨code, found, held⟩
  simp [erasedPosition, found, Code.erasedPosition_next even held, erased]

end Held

/-- Balanced code stays balanced, with the same peak. -/
theorem Balanced.eraseDebug {height outputs peak : Nat}
    (balanced : program.Balanced bounds source position height outputs peak)
    (even : position % Instruction.width = 0) :
    program.eraseDebug.Balanced bounds source (program.erasedPosition source position) height
      outputs peak := by
  induction balanced with
  | finish ended => exact .finish ended.eraseDebug
  | run held assigned plain described enough admitted rest ih =>
      rename_i height outputs peak instruction operation effect
      have restErased := ih (by rw [Nat.add_mod_right]; exact even)
      by_cases isDebug : operation = .debug
      · subst isDebug
        have erased := Instruction.lasts_eq assigned
        cases (Operation.style_of_effect described).1
        rw [erasedPosition_of_debug even held erased] at restErased
        have below : height ≤ peak := rest.height_le_peak
        rw [Nat.max_eq_right below]
        exact restErased
      · have lasts := (Instruction.lasts_eq assigned).trans (decide_eq_true isDebug)
        rw [erasedPosition_of_lasts even held lasts] at restErased
        exact .run (held.eraseDebug even lasts) assigned plain described enough admitted restErased
  | call held assigned named enough later callee rest ihCallee ihRest =>
      have lasts := Instruction.lasts_eq assigned
      have restErased := ihRest (by rw [Nat.add_mod_right]; exact even)
      have calleeErased := ihCallee rfl
      rw [erasedPosition_of_lasts even held lasts] at restErased
      rw [erasedPosition_zero] at calleeErased
      exact .call (held.eraseDebug even lasts) assigned named enough later calleeErased restErased

end Program

/-- The frame in the erased program. -/
def Frame.eraseDebug (program : Program) (frame : Frame) : Frame :=
  { frame with position := program.erasedPosition frame.source frame.position }

/-- The machine at the same point of the erased program. -/
def Machine.eraseDebug (machine : Machine) : Machine :=
  { machine with
    program := machine.program.eraseDebug
    frames := machine.frames.map (Frame.eraseDebug machine.program) }

/-- The erased program, as a disguise. -/
def Disguise.erasing : Disguise where
  machine := Machine.eraseDebug
  stack := id
  withStack _ _ := rfl
  exit _ _ := rfl
  status _ := rfl
  framed _ framed := by simpa [Machine.eraseDebug] using framed
  pop := plain.pop
  push := plain.push

theorem Frame.eraseDebug_of_start {program : Program} {frame : Frame}
    (atStart : frame.position = 0) : frame.eraseDebug program = frame := by
  cases frame
  cases atStart
  simp [eraseDebug]

namespace Machine

variable {machine : Machine} {bounds : Bounds} {frame : Frame} {callers : List Frame}
  {instruction : Instruction} {operation : Operation} {effect : Effect}

theorem perform_eraseDebug (frame : Frame) (operation : Operation) (operand : UInt8) :
    machine.eraseDebug.perform (frame.eraseDebug machine.program) operation operand =
      machine.perform frame operation operand := by
  cases operation with
  | call =>
      have sameSources : machine.eraseDebug.program.sources.size = machine.program.sources.size :=
        Array.size_map
      simp only [perform, enter, sameSources]
      rfl
  | _ => rfl

theorem position_of_perform {callee : Frame} {operand : UInt8}
    (entered : machine.perform frame operation operand = .call callee) : callee.position = 0 := by
  cases eq_call_of_perform entered
  simp only [perform, enter] at entered
  split at entered
  · split at entered
    · cases entered
      rfl
    · simp at entered
  · simp at entered

theorem follow_eraseDebug {control : Control}
    (advances : frame.advance.eraseDebug machine.program =
      (frame.eraseDebug machine.program).advance)
    (opens : ∀ callee, control = .call callee → callee.position = 0) :
    machine.eraseDebug.follow (frame.eraseDebug machine.program)
        (callers.map (Frame.eraseDebug machine.program)) instruction control =
      ((machine.follow frame callers instruction control).1,
        (machine.follow frame callers instruction control).2.eraseDebug) := by
  cases control with
  | call callee =>
      have sameCallee : callee.eraseDebug machine.program = callee :=
        Frame.eraseDebug_of_start (opens callee rfl)
      simp [follow, eraseDebug, advances, sameCallee]
  | halt stack failure => rfl
  | _ => simp [follow, eraseDebug, advances]

theorem leave_eraseDebug (frame : Frame) (callers : List Frame) :
    machine.eraseDebug.leave (frame.eraseDebug machine.program)
        (callers.map (Frame.eraseDebug machine.program)) =
      ((machine.leave frame callers).1, (machine.leave frame callers).2.eraseDebug) := by
  by_cases full : machine.stack.size - frame.base = frame.outputs
  · cases callers <;> simp [leave, eraseDebug, Frame.eraseDebug, full, finish, Machine.exit]
  · simp [leave, eraseDebug, Frame.eraseDebug, full, finish, Machine.exit]

section Steps

variable (spared : Exit → Prop) (running : machine.status = none)
include running

theorem fits_erasing_of_endsAt (frames : machine.frames = frame :: callers)
    (ended : machine.program.EndsAt frame.source frame.position) :
    Disguise.erasing.Fits spared machine := by
  have framesOver : machine.eraseDebug.frames = frame.eraseDebug machine.program ::
      callers.map (Frame.eraseDebug machine.program) := by
    simp [eraseDebug, frames]
  exact Disguise.fits_of_endsAt spared running frames ended framesOver ended.eraseDebug
    (leave_eraseDebug frame callers)

theorem fits_erasing_of_fetches
    (fetches : machine.Fetches frame callers instruction operation effect)
    (even : frame.position % Instruction.width = 0) (lasts : instruction.lasts = true) :
    Disguise.erasing.Fits spared machine := by
  have fetchesOver : machine.eraseDebug.Fetches (frame.eraseDebug machine.program)
      (callers.map (Frame.eraseDebug machine.program)) instruction operation effect := by
    refine ⟨?_, fetches.held.eraseDebug even lasts, fetches.assigned, fetches.described,
      fetches.enough⟩
    simp [eraseDebug, fetches.frames]
  have advances : frame.advance.eraseDebug machine.program =
      (frame.eraseDebug machine.program).advance := by
    simp only [Frame.eraseDebug, Frame.advance,
      Program.erasedPosition_of_lasts even fetches.held lasts]
  apply Disguise.fits_of_fetches spared running fetches fetchesOver
  simp only [Disguise.erasing, perform_eraseDebug]
  exact follow_eraseDebug advances fun callee => position_of_perform

end Steps

end Machine

/-- Meters with the same limit, the second of which has counted no more than the first. -/
def Meter.Outlasted (limit : UInt64) (meter meter' : Meter) : Prop :=
  ∃ counted counted', counted' ≤ counted ∧ meter.Counts limit counted ∧
    meter'.Counts limit counted'

theorem Meter.Outlasted.recordStep {limit : UInt64} {meter meter' : Meter}
    (outlasted : meter.Outlasted limit meter') (instruction : Instruction) :
    Host.Agrees (Outlasted limit) (meter.recordStep instruction)
        (meter'.recordStep instruction) ∨
      (meter.recordStep instruction).1 = .error .resourceExhausted := by
  rcases outlasted with ⟨counted, counted', fewer, counts, counts'⟩
  rcases counts.recordStep instruction with ⟨after, recorded, countsOn⟩ | ⟨_, recorded, _⟩
  · rcases counts'.recordStep instruction with
      ⟨after', recorded', countsOn'⟩ | ⟨_, _, exhausted⟩
    · left
      rw [recorded, recorded']
      exact ⟨rfl, counted + 1, counted' + 1, Nat.succ_le_succ fewer, countsOn, countsOn'⟩
    · -- The first meter has counted at least as much, and it still had room.
      have room := countsOn.within
      rw [countsOn.limit] at room
      omega
  · right
    rw [recorded]

namespace Evaluation

variable {σ : Type} [Store σ] {evaluation : Evaluation} {frame : Frame} {callers : List Frame}
  {instruction : Instruction} {effect : Effect}

theorem proceed_of_debug (running : evaluation.Running)
    (fetches : evaluation.machine.Fetches frame callers instruction .debug effect)
    (executor : Executor σ) :
    let behind := { evaluation.machine with frames := frame.advance :: callers }
    ∃ style, evaluation.proceed Executor.host executor =
      (none, { evaluation with machine := behind }, executor.exhibit style behind) := by
  intro behind
  rcases Operation.style_of_effect fetches.described with ⟨_, style, named⟩
  have stepped : evaluation.machine.step = (.trapped instruction, behind) :=
    Machine.step_of_fetches running.machine fetches
  have assigned := Instruction.operation_eq_ok_iff.mp fetches.assigned
  refine ⟨style, ?_⟩
  simp only [proceed, stepped, resolve, assigned, resolveDebug, named, Executor.host]

/-- At a debug instruction only the plain evaluation takes a step, unless it runs out. -/
theorem idles_of_debug {limit : UInt64} {executor executor' : Executor σ}
    (running : evaluation.Running)
    (fetches : evaluation.machine.Fetches frame callers instruction .debug effect)
    (even : frame.position % Instruction.width = 0)
    (same : executor.store = executor'.store ∧
      executor.meter.Outlasted limit executor'.meter) :
    evaluation.Idles Executor.host .erasing
      (fun left right => left.store = right.store ∧ left.meter.Outlasted limit right.meter)
      (· = .failed .resourceExhausted) executor executor' := by
  rcases same with ⟨sameStore, counted, counted', fewer, counts, counts'⟩
  let observed : Executor σ :=
    Executor.host.observe executor (.step evaluation.space instruction evaluation.machine.stack)
  have asked : evaluation.inquiry? Executor.host executor =
      some ⟨instruction, evaluation.machine.stack, observed⟩ := by
    simp [inquiry?, Machine.inspect?_of_fetches running.machine fetches, observed]
  have observedCounts : observed.meter.Counts limit counted := counts
  rcases Executor.count_of_counts observedCounts instruction evaluation.machine.stack.size with
    ⟨after, granted, kept, countsOn⟩ | ⟨after, denied, _, _⟩
  · left
    rcases proceed_of_debug running fetches after with ⟨style, proceeds⟩
    rw [(step_of_granted running asked granted).trans proceeds]
    have stays : frame.advance.eraseDebug evaluation.machine.program =
        frame.eraseDebug evaluation.machine.program := by
      have erased := Instruction.lasts_eq fetches.assigned
      simp only [Frame.eraseDebug, Frame.advance,
        Program.erasedPosition_of_debug even fetches.held erased]
    refine ⟨rfl, ?_, ?_, ?_⟩
    · simp only [disguised, Disguise.erasing, Machine.eraseDebug, fetches.frames, List.map_cons,
        stays]
    · simp only [Executor.store_exhibit, kept]
      exact sameStore
    · simp only [Executor.meter_exhibit]
      exact ⟨counted + 1, counted', by omega, countsOn, counts'⟩
  · right
    rw [step_of_denied asked denied]
    exact ⟨_, rfl, rfl⟩

/-- The run of a sustained machine is the same without debug instructions, unless it runs out. -/
theorem mirrored_erasing {bounds : Bounds} {total source outputs : Nat}
    (running : evaluation.Running) (sustained : evaluation.machine.Sustained bounds total)
    (orderly : evaluation.machine.Orderly source outputs) (store : σ) (limit : UInt64)
    (journal : Journal) :
    Mirrored .erasing
        (fun left right => left.store = right.store ∧ left.meter.Outlasted limit right.meter)
        (evaluation.run Executor.host (.start store limit journal))
        ((evaluation.disguised .erasing).run Executor.host (.start store limit journal)) ∨
      (evaluation.run Executor.host (.start store limit journal)).1 =
        .failed .resourceExhausted := by
  let going (machine : Machine) : Prop :=
    machine.status = none ∧ machine.Sustained bounds total ∧ machine.Orderly source outputs
  have keeps {machine after : Machine} (held : going machine) (advances : machine.Advances after) :
      going after := by
    rcases held with ⟨status, sustained, orderly⟩
    refine ⟨advances.status_eq.trans status, sustained.of_advances advances, ?_⟩
    exact orderly.of_advances status advances
  have mirrors : (Executor.host : Host (Executor σ)).Mirrors Executor.host .erasing
      evaluation.space
      (fun left right => left.store = right.store ∧ left.meter.Outlasted limit right.meter)
      (· = .failed .resourceExhausted) := by
    apply Executor.mirrors_of_recordStep
    intro meter meter' instruction outlasted
    exact (outlasted.recordStep instruction).imp id fun exhausted => ⟨_, exhausted, rfl⟩
  have counts := Meter.counts_ofLimit limit
  apply mirrored_run_idling mirrors ⟨rfl, 0, 0, Nat.le_refl 0, counts, counts⟩ running going keeps
    _ ⟨running.machine, sustained, orderly⟩
  intro evaluation executor executor' held running same
  rcases held with ⟨_, sustained, orderly⟩
  rcases List.exists_cons_of_ne_nil running.framed with ⟨frame, callers, frames⟩
  have even := (orderly.inOrder.placed frame (by simp [frames])).even
  rcases sustained.endsAt_or_passes frames with ended | ⟨instruction, operation, effect, passes⟩
  · exact Or.inl (Machine.fits_erasing_of_endsAt _ running.machine frames ended)
  · have fetches := Machine.fetches_of_passes frames passes
    by_cases isDebug : operation = .debug
    · subst isDebug
      exact Or.inr (idles_of_debug running fetches even same)
    · have lasts := (Instruction.lasts_eq fetches.assigned).trans (decide_eq_true isDebug)
      exact Or.inl (Machine.fits_erasing_of_fetches _ running.machine fetches even lasts)

end Evaluation

namespace Settings

theorem opening?_erasing (settings : Settings) (expression : Expression) (request : Request) :
    settings.opening? { expression with program := expression.program.eraseDebug } request =
      (settings.opening? expression request).map
        fun evaluation => evaluation.disguised .erasing := by
  have started (source outputs height : Nat) :
      Machine.start expression.program.eraseDebug request.context source outputs height
          settings.layout =
        (Machine.start expression.program request.context source outputs height
          settings.layout).eraseDebug := by
    simp [Machine.start, Machine.eraseDebug, Frame.eraseDebug]
  simp only [opening?]
  split
  · split
    · rw [started]
      rfl
    · rfl
  · rfl

/--
Debug instructions can be erased from what has been certified. The sources keep
their other instructions in order, and they are accepted with the same bounds,
outputs and heights. Every request that does not run out of steps gets the same
answer and leaves the same store without them, with the same limit. Sources that
are no whole number of instructions are not excluded, as no certified code comes
to them.
-/
theorem debug_instructions_are_erasable {deploying : Settings} {program : Program}
    {bounds : Bounds} {outputs : List Nat} {expression : Expression}
    (deployed : deploying.deploy program bounds outputs = .ok expression) :
    let erased := { expression with program := program.eraseDebug }
    (∀ source instructions, program.instructions source = .ok instructions →
      program.eraseDebug.instructions source =
        .ok (instructions.filter fun instruction =>
          instruction.opcode ≠ Operation.debug.opcode)) ∧
      deploying.deploy program.eraseDebug bounds outputs = .ok erased ∧
      ∀ {σ : Type} [Store σ] (settings : Settings) (request : Request) (stepLimit : UInt64)
        (store : σ) (journal : Journal),
        let plain := settings.evaluateWithLimit expression request stepLimit store journal
        let other := settings.evaluateWithLimit erased request stepLimit store journal
        plain.1 ≠ .error .resourceExhausted →
          other.1 = plain.1 ∧ other.2.store = plain.2.store := by
  intro erased
  rcases deploy_eq_ok_iff.mp deployed with ⟨heights, accepted, rfl⟩
  refine ⟨fun source instructions => Program.instructions_eraseDebug, ?_, ?_⟩
  · apply deploy_eq_ok_iff.mpr
    refine ⟨heights, Certifier.check_of_balanced_imp ?_ accepted, rfl⟩
    intro source expected peak balanced
    have balancedErased := balanced.eraseDebug rfl
    rw [Program.erasedPosition_zero] at balancedErased
    exact balancedErased
  · intro σ _ settings request stepLimit store journal plain other enough
    apply evaluateWithLimit_of_mirrored (fun stack => rfl) (opening?_erasing settings _ request)
    intro evaluation opened
    rcases sustained_of_opening? deployed opened with ⟨_, total, sustained⟩
    have running := running_of_opening? opened
    rcases opening?_eq_some_iff.mp opened with ⟨expected, height, _, _, _, rfl⟩
    have orderly : (Machine.start program request.context request.source expected height
        settings.layout).Orderly request.source expected :=
      Machine.orderly_of_entry rfl rfl
    rcases Evaluation.mirrored_erasing running sustained orderly store stepLimit journal with
      mirrored | exhausted
    · exact mirrored
    · have returned := (evaluateWithLimit_of_run opened (Prod.ext exhausted rfl)).1
      exact absurd returned enough

/--
The caller has the source shown, and a callee its stack and the constants. The caller
writes what the callee left under a constant, and returns another cell.
-/
theorem debug_instructions_are_erasable_called :
    let program : Program :=
      ⟨#[#[0x00, 0, 0x04, 3, 0x03, 0x11, 0x31, 0, 0x02, 0], #[0x04, 0, 0x02, 1, 0x04, 1]], #[7]⟩
    let erased : Program := ⟨#[#[0x00, 0, 0x03, 0x11, 0x31, 0, 0x02, 0], #[0x02, 1]], #[7]⟩
    let bounds : Bounds := ⟨[2]⟩
    let request : Request := ⟨0, ⟨[[5, 6]]⟩, 3⟩
    let plain := standard.evaluateWithLimit ⟨program, bounds, [1], [2]⟩ request 8
      ({} : SparseStore)
    let other := standard.evaluateWithLimit ⟨erased, bounds, [1], [2]⟩ request 8 ({} : SparseStore)
    standard.deploy program bounds [1] = .ok ⟨program, bounds, [1], [2]⟩ ∧
      program.eraseDebug = erased ∧
      standard.deploy erased bounds [1] = .ok ⟨erased, bounds, [1], [2]⟩ ∧
      plain.1 ≠ .error .resourceExhausted ∧
      other.1 = .ok [5] ∧ other.2.store = ({} : SparseStore).put ⟨3, 7⟩ 6 := by
  intro program erased bounds request plain other
  have deployed : standard.deploy program bounds [1] = .ok ⟨program, bounds, [1], [2]⟩ := by
    decide +kernel
  have isErased : program.eraseDebug = erased := by decide +kernel
  have returned : plain.1 = .ok [5] ∧ plain.2.store = ({} : SparseStore).put ⟨3, 7⟩ 6 :=
    evaluateWithLimit_of_runFor 10 rfl (by decide +kernel)
  have enough : plain.1 ≠ .error .resourceExhausted := by simp [returned.1]
  rcases debug_instructions_are_erasable deployed with ⟨_, deployedOver, answers⟩
  rcases answers standard request 8 ({} : SparseStore) {} enough with ⟨sameResult, sameStore⟩
  rw [isErased] at deployedOver sameResult sameStore
  exact ⟨deployed, isErased, deployedOver, enough, sameResult.trans returned.1,
    sameStore.trans returned.2⟩

end Settings

end StackCert
