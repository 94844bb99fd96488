import StackCert.Proofs.Disguise

/-!
# A context counts only where it was certified to be read

Certified code names no cell of its context that its bounds do not contain. In
the middle of a run this is part of what sustains a machine: the code ahead of
every open frame is balanced, also that of callees, and balanced code has its
operands tested against the bounds. So the context of a sustained machine can be
exchanged for any other that agrees with it on the contained cells, and the
machine takes the same steps (`Machine.fits_reading`).

An executor sees the context only when it is asked to show it. That ends up in
the log and nowhere else: its store, its meter and the events it has noted are
the same for both contexts (`Executor.SameRecord`).
-/

namespace StackCert

/-- Two contexts have the same words in the cells that bounds contain. -/
def Context.AgreesOn (bounds : Bounds) (left right : Context) : Prop :=
  ∀ column row, bounds.contains column row = true → left.get? column row = right.get? column row

/-- Another context, as a disguise. -/
def Disguise.reading (context : Context) : Disguise where
  machine machine := { machine with context }
  stack stack := stack
  withStack _ _ := rfl
  exit _ _ := rfl
  status _ := rfl
  framed _ framed := framed
  pop stack _ := by
    cases stack.pop <;> rfl
  push stack word _ := by
    cases stack.push word <;> rfl

theorem Disguise.event_reading (context : Context) (event : Event) :
    (reading context).event event = event := by
  cases event <;> rfl

namespace Machine

variable {machine : Machine} {context : Context} {bounds : Bounds}

/-- An operation with an admitted operand reads no cell but those that are contained. -/
theorem perform_reading (agrees : machine.context.AgreesOn bounds context) {frame : Frame}
    {operation : Operation} {operand : UInt8} {height : Nat}
    (admitted : machine.program.admitsOperand bounds height operation operand = true) :
    { machine with context }.perform frame operation operand =
      machine.perform frame operation operand := by
  cases operation with
  | context =>
      have sameCell : context.cell (CellOperand.ofByte operand) =
          machine.context.cell (CellOperand.ofByte operand) := by
        simp only [Context.cell, agrees _ _ admitted]
      simp only [perform, sameCell]
  | _ => rfl

theorem follow_reading (frame : Frame) (callers : List Frame) (instruction : Instruction)
    (control : Control) :
    { machine with context }.follow frame callers instruction control =
      ((machine.follow frame callers instruction control).1,
        { (machine.follow frame callers instruction control).2 with context }) := by
  cases control <;> rfl

theorem leave_reading (frame : Frame) (callers : List Frame) :
    { machine with context }.leave frame callers =
      ((machine.leave frame callers).1,
        { (machine.leave frame callers).2 with context }) := by
  by_cases full : machine.stack.size - frame.base = frame.outputs
  · cases callers with
    | nil => simp only [leave, full, ↓reduceIte, finish, Machine.exit]
    | cons caller callers => simp only [leave, full, ↓reduceIte]
  · simp only [leave, full, ↓reduceIte, finish, Machine.exit]

/-- A sustained machine steps over any context that agrees with its own in the same way. -/
theorem fits_reading {total : Nat} (spared : Exit → Prop)
    (agrees : machine.context.AgreesOn bounds context) (sustained : machine.Sustained bounds total)
    (running : machine.status = none) (framed : machine.frames ≠ []) :
    (Disguise.reading context).Fits spared machine := by
  rcases List.exists_cons_of_ne_nil framed with ⟨frame, callers, frames⟩
  rcases sustained.endsAt_or_passes frames with ended | ⟨instruction, operation, effect, passes⟩
  · exact Disguise.fits_of_endsAt spared running frames ended frames ended
      (leave_reading frame callers)
  · have fetches := fetches_of_passes frames passes
    have fetchesOver :
        { machine with context }.Fetches frame callers instruction operation effect :=
      fetches_of_passes frames passes
    apply Disguise.fits_of_fetches spared running fetches fetchesOver
    have performed : { machine with context }.perform frame operation instruction.operand =
        machine.perform frame operation instruction.operand :=
      perform_reading agrees passes.admitted
    simp only [Disguise.reading, performed, follow_reading]

end Machine

namespace Executor

variable {σ : Type}

/-- Executors that have the same store and have counted and noted the same. -/
structure SameRecord (left right : Executor σ) : Prop where
  store : left.store = right.store
  meter : left.meter = right.meter
  listening : left.journal.listening = right.journal.listening
  events : left.journal.events = right.journal.events

theorem sameRecord_log (executor : Executor σ) (level : Level) (text : Unit → String) :
    executor.SameRecord (executor.log level text) := by
  unfold log Journal.log
  split
  · exact ⟨rfl, rfl, rfl, rfl⟩
  · split <;> exact ⟨rfl, rfl, rfl, rfl⟩

theorem sameRecord_exhibit (executor : Executor σ) (style : DebugStyle) (machine : Machine) :
    executor.SameRecord (executor.exhibit style machine) := by
  unfold exhibit
  split
  · exact ⟨rfl, rfl, rfl, rfl⟩
  · exact executor.sameRecord_log ..

namespace SameRecord

variable {left right : Executor σ}

theorem symm (same : left.SameRecord right) : right.SameRecord left :=
  ⟨same.store.symm, same.meter.symm, same.listening.symm, same.events.symm⟩

theorem trans {third : Executor σ} (same : left.SameRecord right)
    (same' : right.SameRecord third) : left.SameRecord third :=
  ⟨same.store.trans same'.store, same.meter.trans same'.meter,
    same.listening.trans same'.listening, same.events.trans same'.events⟩

/-- Log lines are no part of the record, so they need not be the same. -/
theorem log (same : left.SameRecord right) (level : Level) (text text' : Unit → String) :
    (left.log level text).SameRecord (right.log level text') := by
  apply (left.sameRecord_log level text).symm.trans
  apply same.trans
  exact right.sameRecord_log level text'

theorem exhibit (same : left.SameRecord right) (style : DebugStyle) (machine machine' : Machine) :
    (left.exhibit style machine).SameRecord (right.exhibit style machine') := by
  apply (left.sameRecord_exhibit style machine).symm.trans
  apply same.trans
  exact right.sameRecord_exhibit style machine'

theorem note (same : left.SameRecord right) (event : Event) :
    SameRecord { left with journal := left.journal.note event }
      { right with journal := right.journal.note event } := by
  refine ⟨same.store, same.meter, ?_, ?_⟩
  · simp only [Journal.note]
    split <;> split <;> exact same.listening
  · simp only [Journal.note, same.listening]
    split
    · simp only [same.events]
    · exact same.events

theorem count (same : left.SameRecord right) (instruction : Instruction) (height : Nat) :
    Host.Agrees SameRecord (left.count instruction height) (right.count instruction height) := by
  have sameLogged := same.log .trace (fun _ => admission left.meter instruction height)
    fun _ => admission right.meter instruction height
  simp only [Executor.count, sameLogged.meter]
  exact ⟨rfl, sameLogged.store, rfl, sameLogged.listening, sameLogged.events⟩

end SameRecord

/-- An executor that is shown another context answers and records the same. -/
theorem mirrors_reading [Store σ] (context : Context) (space : Word) (spared : Exit → Prop) :
    (host : Host (Executor σ)).Mirrors host (.reading context) space SameRecord spared := by
  constructor
  case observe =>
    intro left right event same
    rw [Disguise.event_reading]
    exact same.note event
  case permit =>
    intro left right instruction stack same
    exact Or.inl (same.count instruction stack.size)
  case get =>
    intro left right key same
    refine ⟨?_, same⟩
    simp only [host, same.store]
  case set =>
    intro left right key value same
    simp only [host, same.store]
    exact ⟨rfl, rfl, same.meter, same.listening, same.events⟩
  case debug =>
    intro left right style machine same
    exact ⟨rfl, same.exhibit style machine { machine with context }⟩

end Executor

/-- The run of a sustained machine is the same over a context that agrees on the bounds. -/
theorem Evaluation.mirrored_reading {σ : Type} [Store σ] {evaluation : Evaluation} {bounds : Bounds}
    {context : Context} {total : Nat} (running : evaluation.Running)
    (sustained : evaluation.machine.Sustained bounds total)
    (agrees : evaluation.machine.context.AgreesOn bounds context) (executor : Executor σ) :
    Mirrored (.reading context) Executor.SameRecord (evaluation.run Executor.host executor)
      ((evaluation.disguised (.reading context)).run Executor.host executor) := by
  let going (machine : Machine) : Prop :=
    machine.Sustained bounds total ∧ machine.context.AgreesOn bounds context
  have keeps {machine after : Machine} (held : going machine) (advances : machine.Advances after) :
      going after := by
    refine ⟨held.1.of_advances advances, ?_⟩
    rw [advances.context_eq]
    exact held.2
  have fits {machine : Machine} (held : going machine) (status : machine.status = none)
      (framed : machine.frames ≠ []) : (Disguise.reading context).Fits (fun _ => False) machine :=
    Machine.fits_reading _ held.2 held.1 status framed
  have mirrors : (Executor.host : Host (Executor σ)).Mirrors Executor.host (.reading context)
      evaluation.space Executor.SameRecord fun _ => False :=
    Executor.mirrors_reading ..
  rcases mirrored_run mirrors ⟨rfl, rfl, rfl, rfl⟩ running going keeps fits
    ⟨sustained, agrees⟩ with mirrored | isSpared
  · exact mirrored
  · exact isSpared.elim

namespace Settings

variable {σ : Type} [Store σ]

theorem opening?_reading (settings : Settings) (expression : Expression) (source : Nat)
    (space : Word) {left right : Context}
    (leftFits : expression.bounds.satisfiedBy left = true)
    (rightFits : expression.bounds.satisfiedBy right = true) :
    settings.opening? expression ⟨source, right, space⟩ =
      (settings.opening? expression ⟨source, left, space⟩).map
        fun evaluation => evaluation.disguised (.reading right) := by
  simp only [opening?]
  split
  · simp only [leftFits, rightFits, ↓reduceIte]
    rfl
  · rfl

/-- The machine that a certified entry point is evaluated on is sustained. -/
theorem sustained_of_opening? {deploying settings : Settings} {program : Program}
    {bounds : Bounds} {outputs : List Nat} {expression : Expression} {request : Request}
    {evaluation : Evaluation}
    (deployed : deploying.deploy program bounds outputs = .ok expression)
    (opened : settings.opening? expression request = some evaluation) :
    evaluation.machine.context = request.context ∧
      ∃ total, evaluation.machine.Sustained bounds total := by
  rcases deploy_eq_ok_iff.mp deployed with ⟨heights, accepted, rfl⟩
  rcases opening?_eq_some_iff.mp opened with ⟨expected, height, entry, highest, _, rfl⟩
  rcases Certifier.balanced_of_check accepted entry with ⟨peak, isHighest, balanced⟩
  cases highest.symm.trans isHighest
  refine ⟨rfl, expected, ?_⟩
  exact Machine.sustained_start_iff.mpr ⟨rfl, height, Nat.le_refl height, balanced⟩

/--
An evaluation depends on the certified cells of its context only. Two contexts that
have the cells, and the same words in them, give the same result, leave the same
store, use up the meter alike and have the same events noted, whatever else they
hold. The evaluator may have other settings than those of the deployment.
-/
theorem evaluation_reads_certified_cells_only {deploying : Settings} {program : Program}
    {bounds : Bounds} {outputs : List Nat} {expression : Expression}
    (deployed : deploying.deploy program bounds outputs = .ok expression)
    {left right : Context} (leftFits : bounds.satisfiedBy left = true)
    (rightFits : bounds.satisfiedBy right = true)
    (agrees : ∀ column row, bounds.contains column row = true →
      left.get? column row = right.get? column row)
    (settings : Settings) (source : Nat) (space : Word) (stepLimit : UInt64) (store : σ)
    (journal : Journal) :
    let evaluated := fun context => settings.evaluateWithLimit expression ⟨source, context, space⟩
      stepLimit store journal
    (evaluated left).1 = (evaluated right).1 ∧
      (evaluated left).2.store = (evaluated right).2.store ∧
      (evaluated left).2.meter = (evaluated right).2.meter ∧
      (evaluated left).2.journal.events = (evaluated right).2.journal.events := by
  intro evaluated
  have certified : expression.bounds = bounds := by
    rcases deploy_eq_ok_iff.mp deployed with ⟨heights, _, rfl⟩
    rfl
  have openedOver := opening?_reading settings expression source space (certified ▸ leftFits)
    (certified ▸ rightFits)
  cases opened : settings.opening? expression ⟨source, left, space⟩ with
  | none =>
      rw [opened] at openedOver
      simp only [evaluated, evaluateWithLimit_of_turnedAway opened,
        evaluateWithLimit_of_turnedAway openedOver]
      exact ⟨trivial, trivial, trivial, trivial⟩
  | some evaluation =>
      rw [opened] at openedOver
      rcases sustained_of_opening? deployed opened with ⟨sameContext, total, sustained⟩
      have mirrored := Evaluation.mirrored_reading (running_of_opening? opened) sustained
        (show evaluation.machine.context.AgreesOn bounds right from sameContext ▸ agrees)
        (.start store stepLimit journal)
      rcases ran : evaluation.run Executor.host (.start store stepLimit journal) with
        ⟨exit, after, executor⟩
      rcases ranOver : (evaluation.disguised (.reading right)).run Executor.host
        (.start store stepLimit journal) with ⟨exit', after', executor'⟩
      rw [ran, ranOver] at mirrored
      rcases mirrored with ⟨sameExit, sameAfter, same⟩
      cases sameExit
      cases sameAfter
      simp only [evaluated, evaluateWithLimit_eq_of_run opened ran,
        evaluateWithLimit_eq_of_run openedOver ranOver]
      have sameRecord := same.log .debug
      refine ⟨?_, (sameRecord _ _).store, (sameRecord _ _).meter, (sameRecord _ _).events⟩
      cases exit <;> rfl

/--
A callee reads a cell and its caller writes the word under a key. The contexts have
the two certified cells and differ behind them.
-/
theorem evaluation_reads_certified_cells_only_called :
    let program : Program := ⟨#[#[0x00, 0, 0x03, 0x11, 0x31, 0, 0x02, 0], #[0x02, 1]], #[7]⟩
    let bounds : Bounds := ⟨[2]⟩
    let expression : Expression := ⟨program, bounds, [1], [2]⟩
    let left : Context := ⟨[[5, 6, 8]]⟩
    let right : Context := ⟨[[5, 6], [9]]⟩
    let evaluated := fun context => standard.evaluateWithLimit expression ⟨0, context, 3⟩ 9
      ({} : SparseStore) { listening := true }
    standard.deploy program bounds [1] = .ok expression ∧
      bounds.satisfiedBy left = true ∧ bounds.satisfiedBy right = true ∧
      (∀ column row, bounds.contains column row = true →
        left.get? column row = right.get? column row) ∧
      (evaluated left).1 = .ok [5] ∧ (evaluated right).1 = .ok [5] ∧
      (evaluated right).2.store = ({} : SparseStore).put ⟨3, 7⟩ 6 ∧
      (evaluated left).2.journal.events = (evaluated right).2.journal.events := by
  intro program bounds expression left right evaluated
  have deployed : standard.deploy program bounds [1] = .ok expression := by
    decide +kernel
  have agrees : ∀ column row, bounds.contains column row = true →
      left.get? column row = right.get? column row := by
    intro column row contained
    match column, row, contained with
    | 0, 0, _ => rfl
    | 0, 1, _ => rfl
  have leftFits : bounds.satisfiedBy left = true := rfl
  have rightFits : bounds.satisfiedBy right = true := rfl
  have returned : (evaluated left).1 = .ok [5] ∧
      (evaluated left).2.store = ({} : SparseStore).put ⟨3, 7⟩ 6 :=
    evaluateWithLimit_of_runFor 7 rfl (by decide +kernel)
  rcases evaluation_reads_certified_cells_only deployed leftFits rightFits agrees standard 0 3 9
    ({} : SparseStore) { listening := true } with ⟨sameResult, sameStore, _, sameEvents⟩
  exact ⟨deployed, leftFits, rightFits, agrees, returned.1, sameResult.symm.trans returned.1,
    sameStore.symm.trans returned.2, sameEvents⟩

end Settings

end StackCert
