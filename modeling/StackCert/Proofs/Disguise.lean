import StackCert.Proofs.Inquiry

/-!
# Machines in disguise

Two machines are often alike but for one thing that the instructions at hand do
not touch: the cells of the context that are never read, the room that is left on
the stack, the words that callers have left below. A `Disguise` changes such a
thing in every machine. It fits a machine if stepping and disguising commute
there (`Disguise.Fits`).

What holds of machines is carried over to evaluations here, once for all
disguises. The hosts of the two evaluations have to answer alike, each for the
machine that it is shown (`Host.Mirrors`). Step by step the second evaluation is
then the first one in disguise. They may part at an exit of the first one that is
*spared*: a failure that only the first machine meets, or that only its host
gives.
-/

namespace StackCert

variable {σ τ : Type}

/-- A change of machines that a host does not notice when it pops and pushes values. -/
structure Disguise where
  machine : Machine → Machine
  stack : Stack → Stack
  withStack : ∀ (plain : Machine) (words : Stack),
    machine { plain with stack := words } = { machine plain with stack := stack words }
  exit : ∀ (plain : Machine) (exit : Exit), machine (plain.exit exit) = (machine plain).exit exit
  status : ∀ plain : Machine, (machine plain).status = plain.status
  framed : ∀ plain : Machine, plain.frames ≠ [] → (machine plain).frames ≠ []
  pop : ∀ words : Stack, 1 ≤ words.size →
    (stack words).pop = words.pop.map fun popped => (popped.1, stack popped.2)
  push : ∀ (words : Stack) (word : Word), words.size < words.limit →
    (stack words).push word = (words.push word).map stack

namespace Disguise

variable (disguise : Disguise)

/-- The disguise that changes nothing. -/
def plain : Disguise where
  machine := id
  stack := id
  withStack _ _ := rfl
  exit _ _ := rfl
  status _ := rfl
  framed _ framed := framed
  pop words _ := by
    cases popped : words.pop <;> simp [popped, Except.map]
  push words word _ := by
    cases pushed : words.push word <;> simp [pushed, Except.map]

theorem stack_machine (plain : Machine) :
    (disguise.machine plain).stack = disguise.stack plain.stack :=
  congrArg Machine.stack (disguise.withStack plain plain.stack)

/-- What is announced of a machine in disguise; accesses are the same. -/
def event : Event → Event
  | .step space instruction stack => .step space instruction (disguise.stack stack)
  | event => event

theorem event_plain (event : Event) : plain.event event = event := by
  cases event <;> rfl

/-- A machine steps in the disguise as it does without, unless it comes to a spared exit. -/
structure Fits (spared : Exit → Prop) (machine : Machine) : Prop where
  inspect? : (disguise.machine machine).inspect? = machine.inspect?
  step : (∃ exit, machine.step.1 = .exited exit ∧ spared exit) ∨
    (disguise.machine machine).step = (machine.step.1, disguise.machine machine.step.2)

theorem fits_plain (spared : Exit → Prop) (machine : Machine) : plain.Fits spared machine :=
  ⟨rfl, Or.inr rfl⟩

section Fitting

variable {disguise : Disguise} {machine : Machine} {frame frame' : Frame}
  {callers callers' : List Frame} (spared : Exit → Prop) (running : machine.status = none)
include running

/-- At the end of a source a disguise fits if the frame is left in the same way. -/
theorem fits_of_endsAt (frames : machine.frames = frame :: callers)
    (ended : machine.program.EndsAt frame.source frame.position)
    (framesOver : (disguise.machine machine).frames = frame' :: callers')
    (endedOver : (disguise.machine machine).program.EndsAt frame'.source frame'.position)
    (leaves : (disguise.machine machine).leave frame' callers' =
      ((machine.leave frame callers).1, disguise.machine (machine.leave frame callers).2)) :
    disguise.Fits spared machine := by
  have runningOver := (disguise.status machine).trans running
  refine ⟨?_, Or.inr ?_⟩
  · rw [Machine.inspect?_of_endsAt frames ended, Machine.inspect?_of_endsAt framesOver endedOver]
  · rw [Machine.step_of_endsAt running frames ended,
      Machine.step_of_endsAt runningOver framesOver endedOver, leaves]

/-- At an instruction a disguise fits if what the instruction asks for is followed likewise. -/
theorem fits_of_fetches {instruction : Instruction} {operation : Operation} {effect : Effect}
    (fetches : machine.Fetches frame callers instruction operation effect)
    (fetchesOver :
      (disguise.machine machine).Fetches frame' callers' instruction operation effect)
    (follows : (disguise.machine machine).follow frame' callers' instruction
        ((disguise.machine machine).perform frame' operation instruction.operand) =
      let followed := machine.follow frame callers instruction
        (machine.perform frame operation instruction.operand)
      (followed.1, disguise.machine followed.2)) :
    disguise.Fits spared machine := by
  have runningOver := (disguise.status machine).trans running
  refine ⟨?_, Or.inr ?_⟩
  · rw [Machine.inspect?_of_fetches running fetches,
      Machine.inspect?_of_fetches runningOver fetchesOver]
  · rw [Machine.step_of_fetches running fetches,
      Machine.step_of_fetches runningOver fetchesOver, follows]

end Fitting

end Disguise

namespace Host

/-- Two answers are the same, and the states behind them are alike. -/
def Agrees {α : Type} (alike : σ → τ → Prop) (left : Except Failure α × σ)
    (right : Except Failure α × τ) : Prop :=
  left.1 = right.1 ∧ alike left.2 right.2

/--
In a space the right host answers for a machine in disguise as the left one does
without, unless the left one denies an instruction with a failure that is spared.
-/
structure Mirrors (left : Host σ) (right : Host τ) (disguise : Disguise) (space : Word)
    (alike : σ → τ → Prop) (spared : Exit → Prop) : Prop where
  observe : ∀ {state : σ} {state' : τ} (event : Event), alike state state' →
    alike (left.observe state event) (right.observe state' (disguise.event event))
  permit : ∀ {state : σ} {state' : τ} (instruction : Instruction) (stack : Stack),
    alike state state' →
    Agrees alike (left.permit state instruction stack)
        (right.permit state' instruction (disguise.stack stack)) ∨
      ∃ failure, (left.permit state instruction stack).1 = .error failure ∧
        spared (.failed failure)
  get : ∀ {state : σ} {state' : τ} (key : Word), alike state state' →
    Agrees alike (left.get state space key) (right.get state' space key)
  set : ∀ {state : σ} {state' : τ} (key value : Word), alike state state' →
    Agrees alike (left.set state space key value) (right.set state' space key value)
  debug : ∀ {state : σ} {state' : τ} (style : DebugStyle) (machine : Machine),
    alike state state' →
    Agrees alike (left.debug state style machine)
      (right.debug state' style (disguise.machine machine))

theorem Mirrors.spare {left : Host σ} {right : Host τ} {disguise : Disguise} {space : Word}
    {alike : σ → τ → Prop} {spared : Exit → Prop}
    (mirrors : left.Mirrors right disguise space alike fun _ => False) :
    left.Mirrors right disguise space alike spared := by
  refine ⟨mirrors.observe, ?_, mirrors.get, mirrors.set, mirrors.debug⟩
  intro state state' instruction stack same
  rcases mirrors.permit instruction stack same with agrees | ⟨_, _, never⟩
  · exact Or.inl agrees
  · exact never.elim

end Host

/--
Executors answer alike for any disguise, since their answers come from the store and
the meter alone. What has to be shown is how their meters record an instruction.
-/
theorem Executor.mirrors_of_recordStep [Store σ] {alike : Meter → Meter → Prop}
    {spared : Exit → Prop} (disguise : Disguise) (space : Word)
    (records : ∀ {meter meter' : Meter} (instruction : Instruction), alike meter meter' →
      Host.Agrees alike (meter.recordStep instruction) (meter'.recordStep instruction) ∨
        ∃ failure, (meter.recordStep instruction).1 = .error failure ∧ spared (.failed failure)) :
    (host : Host (Executor σ)).Mirrors host disguise space
      (fun left right => left.store = right.store ∧ alike left.meter right.meter) spared := by
  constructor
  case observe =>
    intro left right event same
    exact same
  case permit =>
    intro left right instruction stack same
    rcases records instruction same.2 with agrees | denied
    · exact Or.inl ⟨agrees.1, same.1, agrees.2⟩
    · exact Or.inr denied
  case get =>
    intro left right key same
    refine ⟨?_, same⟩
    simp only [host, same.1]
  case set =>
    intro left right key value same
    simp only [host, same.1]
    exact ⟨rfl, rfl, same.2⟩
  case debug =>
    intro left right style machine same
    refine ⟨rfl, ?_⟩
    simp only [host, store_exhibit, meter_exhibit]
    exact same

namespace Evaluation

/-- The evaluation with its machine in disguise. -/
def disguised (evaluation : Evaluation) (disguise : Disguise) : Evaluation :=
  { evaluation with machine := disguise.machine evaluation.machine }

/-- The same happened to an evaluation and to the one in disguise. -/
structure Mirrored {α : Type} (disguise : Disguise) (alike : σ → τ → Prop)
    (left : α × Evaluation × σ) (right : α × Evaluation × τ) : Prop where
  outcome : right.1 = left.1
  evaluation : right.2.1 = left.2.1.disguised disguise
  state : alike left.2.2 right.2.2

variable {left : Host σ} {right : Host τ} {disguise : Disguise} {alike : σ → τ → Prop}
  {spared : Exit → Prop} {evaluation : Evaluation} {state : σ} {state' : τ}

theorem Running.disguised (running : evaluation.Running) (disguise : Disguise) :
    (evaluation.disguised disguise).Running := by
  refine ⟨running.status, ?_, disguise.framed _ running.framed⟩
  exact (disguise.status _).trans running.machine

theorem disguised_withStack (disguise : Disguise) (stack : Stack) :
    (evaluation.withStack stack).disguised disguise =
      (evaluation.disguised disguise).withStack (disguise.stack stack) := by
  unfold disguised withStack
  rw [disguise.withStack]

theorem disguised_exit (disguise : Disguise) (exit : Exit) :
    (evaluation.exit exit).disguised disguise = (evaluation.disguised disguise).exit exit := by
  simp only [disguised, Evaluation.exit, disguise.exit]

section Steps

variable (mirrors : left.Mirrors right disguise evaluation.space alike spared)
  (same : alike state state')
include mirrors same

theorem mirrored_resolveGet (nonempty : 1 ≤ evaluation.machine.stack.size) :
    Mirrored disguise alike (evaluation.resolveGet left state)
      ((evaluation.disguised disguise).resolveGet right state') := by
  have sameSpace : (evaluation.disguised disguise).space = evaluation.space := rfl
  have popped : (evaluation.disguised disguise).machine.stack.pop = _ :=
    (congrArg Stack.pop (disguise.stack_machine evaluation.machine)).trans
      (disguise.pop evaluation.machine.stack nonempty)
  unfold resolveGet
  rw [popped, sameSpace]
  cases taken : evaluation.machine.stack.pop with
  | error failure => exact ⟨rfl, rfl, same⟩
  | ok keyed =>
      have size := (Stack.exchanges_of_pop taken).size
      have limit := (Stack.exchanges_of_pop taken).limit
      have fits : evaluation.machine.stack.size ≤ evaluation.machine.stack.limit :=
        evaluation.machine.stack.size_le_limit
      -- The key has left its place to the value, so there is room for it.
      have room : keyed.2.size < keyed.2.limit := by
        simp only at size
        omega
      have agrees := mirrors.get keyed.1 same
      rcases leftAnswered : left.get state evaluation.space keyed.1 with ⟨result, next⟩
      rcases rightAnswered : right.get state' evaluation.space keyed.1 with ⟨result', next'⟩
      rw [leftAnswered, rightAnswered] at agrees
      rcases agrees with ⟨sameResult, sameNext⟩
      cases sameResult
      cases result with
      | error failure =>
          simp only [Except.map, leftAnswered, rightAnswered]
          exact ⟨rfl, (disguised_withStack disguise _).symm, sameNext⟩
      | ok value =>
          simp only [Except.map, leftAnswered, rightAnswered, disguise.push keyed.2 value room]
          cases keyed.2.push value with
          | error failure => exact ⟨rfl, (disguised_withStack disguise _).symm, sameNext⟩
          | ok pushed =>
              refine ⟨rfl, (disguised_withStack disguise _).symm, ?_⟩
              exact mirrors.observe (.get evaluation.space keyed.1 value) sameNext

theorem mirrored_resolveSet (enough : 2 ≤ evaluation.machine.stack.size) :
    Mirrored disguise alike (evaluation.resolveSet left state)
      ((evaluation.disguised disguise).resolveSet right state') := by
  have sameSpace : (evaluation.disguised disguise).space = evaluation.space := rfl
  have popped : (evaluation.disguised disguise).machine.stack.pop = _ :=
    (congrArg Stack.pop (disguise.stack_machine evaluation.machine)).trans
      (disguise.pop evaluation.machine.stack (Nat.le_of_succ_le enough))
  unfold resolveSet
  rw [popped, sameSpace]
  cases taken : evaluation.machine.stack.pop with
  | error failure => exact ⟨rfl, rfl, same⟩
  | ok valued =>
      have size := (Stack.exchanges_of_pop taken).size
      have nonempty : 1 ≤ valued.2.size := by
        simp only at size
        omega
      simp only [Except.map, disguise.pop valued.2 nonempty]
      cases valued.2.pop with
      | error failure => exact ⟨rfl, (disguised_withStack disguise _).symm, same⟩
      | ok keyed =>
          simp only
          have agrees := mirrors.set keyed.1 valued.1 same
          rcases leftAnswered : left.set state evaluation.space keyed.1 valued.1 with
            ⟨result, next⟩
          rcases rightAnswered : right.set state' evaluation.space keyed.1 valued.1 with
            ⟨result', next'⟩
          rw [leftAnswered, rightAnswered] at agrees
          rcases agrees with ⟨sameResult, sameNext⟩
          cases sameResult
          cases result with
          | error failure => exact ⟨rfl, (disguised_withStack disguise _).symm, sameNext⟩
          | ok done =>
              refine ⟨rfl, (disguised_withStack disguise _).symm, ?_⟩
              exact mirrors.observe (.set evaluation.space keyed.1 valued.1) sameNext

theorem mirrored_resolveDebug (operand : UInt8) :
    Mirrored disguise alike (evaluation.resolveDebug left operand state)
      ((evaluation.disguised disguise).resolveDebug right operand state') := by
  unfold resolveDebug
  cases DebugStyle.ofNat? operand.toNat with
  | none => exact ⟨rfl, rfl, same⟩
  | some style =>
      have agrees := mirrors.debug style evaluation.machine same
      exact ⟨agrees.1.symm, rfl, agrees.2⟩

/-- An instruction with the values of its effect there is resolved in the same way. -/
theorem mirrored_resolve {instruction : Instruction} {operation : Operation} {effect : Effect}
    (assigned : instruction.operation = .ok operation)
    (described : operation.effect instruction.operand = .ok effect)
    (enough : effect.pops ≤ evaluation.machine.stack.size) :
    Mirrored disguise alike (evaluation.resolve left instruction state)
      ((evaluation.disguised disguise).resolve right instruction state') := by
  rw [Instruction.operation_eq_ok_iff] at assigned
  unfold resolve
  rw [assigned]
  cases operation with
  | get =>
      cases described
      exact mirrored_resolveGet mirrors same enough
  | set =>
      cases described
      exact mirrored_resolveSet mirrors same enough
  | debug => exact mirrored_resolveDebug mirrors same instruction.operand
  | _ => exact ⟨rfl, rfl, same⟩

theorem mirrored_proceed (running : evaluation.Running)
    (fits : disguise.Fits spared evaluation.machine) :
    Mirrored disguise alike (evaluation.proceed left state)
        ((evaluation.disguised disguise).proceed right state') ∨
      ∃ exit, (evaluation.proceed left state).1 = some exit ∧ spared exit := by
  rcases List.exists_cons_of_ne_nil running.framed with ⟨frame, callers, frames⟩
  rcases stepped : evaluation.machine.step with ⟨outcome, machine⟩
  rcases fits.step with ⟨exit, exits, isSpared⟩ | commutes
  · rw [stepped] at exits
    cases exits
    exact Or.inr ⟨exit, by simp only [proceed, stepped], isSpared⟩
  · left
    have disguisedStepped : (evaluation.disguised disguise).machine.step =
        (outcome, disguise.machine machine) := by
      rw [stepped] at commutes
      exact commutes
    unfold proceed
    rw [stepped, disguisedStepped]
    cases outcome with
    | continued => exact ⟨rfl, rfl, same⟩
    | exited exit => exact ⟨rfl, rfl, same⟩
    | trapped instruction =>
        rcases Machine.fetches_of_trapped running.machine frames stepped with
          ⟨operation, effect, fetches, _, behind⟩
        have enough : effect.pops ≤ { evaluation with machine }.machine.stack.size := by
          rw [behind]
          exact Nat.le_trans fetches.enough (Nat.sub_le _ _)
        have mirrorsOn :
            left.Mirrors right disguise { evaluation with machine }.space alike spared := mirrors
        have resolved :=
          mirrored_resolve mirrorsOn same fetches.assigned fetches.described enough
        rcases leftResolved : { evaluation with machine }.resolve left instruction state with
          ⟨result, after, next⟩
        rcases rightResolved : ({ evaluation with machine }.disguised disguise).resolve right
          instruction state' with ⟨result', after', next'⟩
        rw [leftResolved, rightResolved] at resolved
        rcases resolved with ⟨sameResult, disguisedAfter, sameNext⟩
        cases sameResult
        cases disguisedAfter
        rw [disguised] at rightResolved
        simp only [disguised, leftResolved, rightResolved]
        cases result with
        | error failure => exact ⟨rfl, (disguised_exit disguise _).symm, sameNext⟩
        | ok done => exact ⟨rfl, rfl, sameNext⟩

/-- A step is the same in disguise, or it comes to a spared exit. -/
theorem mirrored_step (running : evaluation.Running)
    (fits : disguise.Fits spared evaluation.machine) :
    Mirrored disguise alike (evaluation.step left state)
        ((evaluation.disguised disguise).step right state') ∨
      ∃ exit, (evaluation.step left state).1 = some exit ∧ spared exit := by
  have runningOn := running.disguised disguise
  cases inspected : evaluation.machine.inspect? with
  | none =>
      have unasked : evaluation.inquiry? left state = none := by
        simp [inquiry?, inspected]
      have disguisedUnasked : (evaluation.disguised disguise).inquiry? right state' = none := by
        simp [inquiry?, disguised, fits.inspect?, inspected]
      rw [step_of_unasked running unasked, step_of_unasked runningOn disguisedUnasked]
      exact mirrored_proceed mirrors same running fits
  | some instruction =>
      have asked : evaluation.inquiry? left state = some ⟨instruction, evaluation.machine.stack,
          left.observe state (.step evaluation.space instruction evaluation.machine.stack)⟩ := by
        simp [inquiry?, inspected]
      have disguisedAsked : (evaluation.disguised disguise).inquiry? right state' =
          some ⟨instruction, disguise.stack evaluation.machine.stack, right.observe state'
            (.step evaluation.space instruction (disguise.stack evaluation.machine.stack))⟩ := by
        simp [inquiry?, disguised, fits.inspect?, inspected, disguise.stack_machine]
      have answers := mirrors.permit instruction evaluation.machine.stack
        (mirrors.observe (.step evaluation.space instruction evaluation.machine.stack) same)
      rcases leftAnswered : left.permit _ instruction evaluation.machine.stack with ⟨answer, next⟩
      rcases rightAnswered : right.permit _ instruction
        (disguise.stack evaluation.machine.stack) with ⟨answer', next'⟩
      rw [leftAnswered, rightAnswered] at answers
      rcases answers with ⟨sameAnswer, sameNext⟩ | ⟨failure, denied, isSpared⟩
      · cases sameAnswer
        cases answer with
        | error failure =>
            rw [step_of_denied asked leftAnswered, step_of_denied disguisedAsked rightAnswered]
            exact Or.inl ⟨rfl, (disguised_exit disguise _).symm, sameNext⟩
        | ok done =>
            rw [step_of_granted running asked leftAnswered,
              step_of_granted runningOn disguisedAsked rightAnswered]
            exact mirrored_proceed mirrors sameNext running fits
      · cases denied
        rw [step_of_denied asked leftAnswered]
        exact Or.inr ⟨.failed failure, rfl, isSpared⟩

end Steps

/--
A step that does not show in disguise: the disguised evaluation is afterwards what it
was before, or the step comes to a spared exit.
-/
def Idles (left : Host σ) (disguise : Disguise) (alike : σ → τ → Prop) (spared : Exit → Prop)
    (evaluation : Evaluation) (state : σ) (state' : τ) : Prop :=
  let stepped := evaluation.step left state
  (stepped.1 = none ∧ stepped.2.1.disguised disguise = evaluation.disguised disguise ∧
      alike stepped.2.2 state') ∨
    ∃ exit, stepped.1 = some exit ∧ spared exit

/--
A run is the same in disguise, or it comes to a spared exit, if the disguise fits
whatever the moves of the run lead to, except for steps that do not show in it.
-/
theorem mirrored_run_idling (mirrors : left.Mirrors right disguise evaluation.space alike spared)
    (same : alike state state') (running : evaluation.Running) (going : Machine → Prop)
    (keeps : ∀ {machine after : Machine}, going machine → machine.Advances after → going after)
    (fits : ∀ {evaluation : Evaluation} {state : σ} {state' : τ}, going evaluation.machine →
      evaluation.Running → alike state state' →
      disguise.Fits spared evaluation.machine ∨
        evaluation.Idles left disguise alike spared state state')
    (started : going evaluation.machine) :
    Mirrored disguise alike (evaluation.run left state)
        ((evaluation.disguised disguise).run right state') ∨
      spared (evaluation.run left state).1 := by
  induction evaluation, state using run.induct left generalizing state' with
  | case1 evaluation state stepped exit =>
      rename_i ended
      rw [run_of_some ended]
      rcases fits started running same with fitting | ⟨continues, _⟩ | ⟨exit', exits, isSpared⟩
      · rcases mirrored_step mirrors same running fitting with
          ⟨sameExit, disguisedAfter, sameNext⟩ | ⟨exit', exits, isSpared⟩
        · rw [run_of_some (sameExit.trans ended)]
          exact Or.inl ⟨rfl, disguisedAfter, sameNext⟩
        · cases ended.symm.trans exits
          exact Or.inr isSpared
      · cases ended.symm.trans continues
      · cases ended.symm.trans exits
        exact Or.inr isSpared
  | case2 evaluation state stepped continues =>
      rename_i ih
      have goesOn : evaluation.step left state = (none, stepped.2.1, stepped.2.2) :=
        Prod.ext continues rfl
      rcases advances_of_step running goesOn with ⟨advances, _, owned⟩
      have goesOnFrom {state' : τ} (same : alike stepped.2.2 state') :=
        ih (owned ▸ mirrors) same (running_of_step running goesOn) (keeps started advances)
      rw [run_of_none continues]
      rcases fits started running same with fitting | ⟨_, unchanged, sameNext⟩ | ⟨exit, exits, _⟩
      · rcases mirrored_step mirrors same running fitting with
          ⟨sameExit, disguisedAfter, sameNext⟩ | ⟨exit, exits, _⟩
        · rw [run_of_none (sameExit.trans continues), disguisedAfter]
          exact goesOnFrom sameNext
        · cases continues.symm.trans exits
      · -- Only the left evaluation has taken a step.
        rw [← unchanged]
        exact goesOnFrom sameNext
      · cases continues.symm.trans exits

/-- A run is the same in disguise, or it comes to a spared exit, if the disguise always fits. -/
theorem mirrored_run (mirrors : left.Mirrors right disguise evaluation.space alike spared)
    (same : alike state state') (running : evaluation.Running) (going : Machine → Prop)
    (keeps : ∀ {machine after : Machine}, going machine → machine.Advances after → going after)
    (fits : ∀ {machine : Machine}, going machine → machine.status = none →
      machine.frames ≠ [] → disguise.Fits spared machine)
    (started : going evaluation.machine) :
    Mirrored disguise alike (evaluation.run left state)
        ((evaluation.disguised disguise).run right state') ∨
      spared (evaluation.run left state).1 := by
  apply mirrored_run_idling mirrors same running going keeps _ started
  intro evaluation state state' held running _
  exact Or.inl (fits held running.machine running.framed)

end Evaluation

/-- A request is answered in the same way if its opening is that of another one in disguise. -/
theorem Settings.evaluateWithLimit_of_mirrored [Store σ] {settings : Settings}
    {expression expression' : Expression} {request request' : Request} {stepLimit : UInt64}
    {store : σ} {journal : Journal} {disguise : Disguise} {alike : Executor σ → Executor σ → Prop}
    (words : ∀ stack, (disguise.stack stack).toList = stack.toList)
    (openedOver : settings.opening? expression' request' =
      (settings.opening? expression request).map fun evaluation => evaluation.disguised disguise)
    (mirrored : ∀ {evaluation : Evaluation},
      settings.opening? expression request = some evaluation →
      Evaluation.Mirrored disguise (fun left right => left.store = right.store ∧ alike left right)
        (evaluation.run Executor.host (.start store stepLimit journal))
        ((evaluation.disguised disguise).run Executor.host (.start store stepLimit journal))) :
    let plain := settings.evaluateWithLimit expression request stepLimit store journal
    let other := settings.evaluateWithLimit expression' request' stepLimit store journal
    other.1 = plain.1 ∧ other.2.store = plain.2.store := by
  intro plain other
  cases opened : settings.opening? expression request with
  | none =>
      rw [opened] at openedOver
      simp only [plain, other, evaluateWithLimit_of_turnedAway opened,
        evaluateWithLimit_of_turnedAway openedOver]
      exact ⟨trivial, trivial⟩
  | some evaluation =>
      rw [opened] at openedOver
      have mirrors := mirrored opened
      rcases ran : evaluation.run Executor.host (.start store stepLimit journal) with
        ⟨exit, after, executor⟩
      rcases ranOver : (evaluation.disguised disguise).run Executor.host
        (.start store stepLimit journal) with ⟨exit', after', executor'⟩
      rw [ran, ranOver] at mirrors
      rcases mirrors with ⟨sameExit, sameAfter, same⟩
      cases sameExit
      cases sameAfter
      rcases evaluateWithLimit_of_run opened ran with ⟨returned, left, _⟩
      rcases evaluateWithLimit_of_run openedOver ranOver with ⟨returnedOver, leftOver, _⟩
      have sameResult : exit.result (after.disguised disguise) = exit.result after := by
        cases exit with
        | failed failure => rfl
        | stopped => simp only [Exit.result, Evaluation.disguised, disguise.stack_machine, words]
      exact ⟨returnedOver.trans (sameResult.trans returned.symm),
        leftOver.trans (same.1.symm.trans left.symm)⟩

end StackCert
