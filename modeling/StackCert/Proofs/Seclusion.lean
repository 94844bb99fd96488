import StackCert.Host.Scripted
import StackCert.Proofs.Abreast
import StackCert.Proofs.Elevation

/-!
# A callee depends on its inputs alone

What holds of the steps of a machine is carried over to evaluations. A host is
handed the stack and the machine, so it could tell a callee from the same source
run alone. `Host.Blind` excludes this: the host answers what it is asked and takes
no account of what it is shown. With such a host a callee takes the same steps, in
the same order, as its source does alone on the callee's inputs. Both make the
same accesses, and both fail alike or come to the end of the source with the
declared number of values. What the callers left on the stack is there as before.
-/

namespace StackCert

namespace Host

variable {σ : Type}

/--
The host goes by what it is asked and not by what it is shown of the machine.
States that are alike make no difference to it.
-/
structure Blind (host : Host σ) (alike : σ → σ → Prop) : Prop where
  get : ∀ {state state' : σ} (space key : Word), alike state state' →
    Agrees alike (host.get state space key) (host.get state' space key)
  set : ∀ {state state' : σ} (space key value : Word), alike state state' →
    Agrees alike (host.set state space key value) (host.set state' space key value)
  permit : ∀ {state state' : σ} (instruction : Instruction) (stack stack' : Stack),
    alike state state' →
    Agrees alike (host.permit state instruction stack) (host.permit state' instruction stack')
  debug : ∀ {state state' : σ} (style : DebugStyle) (machine machine' : Machine),
    alike state state' →
    Agrees alike (host.debug state style machine) (host.debug state' style machine')
  observe : ∀ {state state' : σ} (event event' : Event), alike state state' →
    alike (host.observe state event) (host.observe state' event')

/-- A blind host does not see through any disguise. -/
theorem Blind.mirrors {host : Host σ} {alike : σ → σ → Prop} (blind : host.Blind alike)
    (disguise : Disguise) (space : Word) (spared : Exit → Prop) :
    host.Mirrors host disguise space alike spared := by
  constructor
  case observe =>
    intro state state' event same
    exact blind.observe event _ same
  case permit =>
    intro state state' instruction stack same
    exact Or.inl (blind.permit instruction stack _ same)
  case get =>
    intro state state' key same
    exact blind.get space key same
  case set =>
    intro state state' key value same
    exact blind.set space key value same
  case debug =>
    intro state state' style machine same
    exact blind.debug style machine _ same

/-- The host with a list of the accesses it was asked for, in order. -/
def logging (host : Host σ) : Host (σ × List Call) where
  get state space key :=
    let answer := host.get state.1 space key
    (answer.1, answer.2, state.2 ++ [.get space key])
  set state space key value :=
    let answer := host.set state.1 space key value
    (answer.1, answer.2, state.2 ++ [.set space key value])
  permit state instruction stack :=
    let answer := host.permit state.1 instruction stack
    (answer.1, answer.2, state.2)
  debug state style machine :=
    let answer := host.debug state.1 style machine
    (answer.1, answer.2, state.2)
  observe state event := (host.observe state.1 event, state.2)

/-- States are alike and so far the same accesses were asked for. -/
def LoggedAlike (alike : σ → σ → Prop) (left right : σ × List Call) : Prop :=
  alike left.1 right.1 ∧ left.2 = right.2

theorem Blind.logging {host : Host σ} {alike : σ → σ → Prop} (blind : host.Blind alike) :
    host.logging.Blind (LoggedAlike alike) := by
  constructor
  case get =>
    rintro ⟨state, log⟩ ⟨state', log'⟩ space key ⟨same, rfl⟩
    have agrees := blind.get space key same
    exact ⟨agrees.1, agrees.2, rfl⟩
  case set =>
    rintro ⟨state, log⟩ ⟨state', log'⟩ space key value ⟨same, rfl⟩
    have agrees := blind.set space key value same
    exact ⟨agrees.1, agrees.2, rfl⟩
  case permit =>
    rintro ⟨state, log⟩ ⟨state', log'⟩ instruction stack stack' ⟨same, rfl⟩
    have agrees := blind.permit instruction stack stack' same
    exact ⟨agrees.1, agrees.2, rfl⟩
  case debug =>
    rintro ⟨state, log⟩ ⟨state', log'⟩ style machine machine' ⟨same, rfl⟩
    have agrees := blind.debug style machine machine' same
    exact ⟨agrees.1, agrees.2, rfl⟩
  case observe =>
    rintro ⟨state, log⟩ ⟨state', log'⟩ event event' ⟨same, rfl⟩
    exact ⟨blind.observe event event' same, rfl⟩

/-- The log has no effect on what the host does. -/
theorem keepsPace_logging (host : Host σ) (space : Word) :
    host.KeepsPace host.logging space (fun state logged => state = logged.1) fun _ => False := by
  constructor
  case observe =>
    rintro _ logged event rfl
    rfl
  case permit =>
    rintro _ logged instruction stack rfl
    exact Or.inl ⟨rfl, rfl⟩
  case get =>
    rintro _ logged key rfl
    exact ⟨rfl, rfl⟩
  case set =>
    rintro _ logged key value rfl
    exact ⟨rfl, rfl⟩
  case debug =>
    rintro _ logged style machine rfl
    exact ⟨rfl, rfl⟩

end Host

/-- An executor keeps what it is shown in its journal, which bears on no answer. -/
theorem Executor.host_blind {σ : Type} [Store σ] :
    (host : Host (Executor σ)).Blind fun left right =>
      left.store = right.store ∧ left.meter = right.meter := by
  constructor
  case get =>
    rintro ⟨store, meter, journal⟩ ⟨_, _, journal'⟩ space key ⟨rfl, rfl⟩
    exact ⟨rfl, rfl, rfl⟩
  case set =>
    rintro ⟨store, meter, journal⟩ ⟨_, _, journal'⟩ space key value ⟨rfl, rfl⟩
    exact ⟨rfl, rfl, rfl⟩
  case permit =>
    rintro ⟨store, meter, journal⟩ ⟨_, _, journal'⟩ instruction stack stack' ⟨rfl, rfl⟩
    exact ⟨rfl, rfl, rfl⟩
  case debug =>
    intro executor executor' style machine machine' ⟨sameStore, sameMeter⟩
    refine ⟨rfl, ?_⟩
    simp only [host, store_exhibit, meter_exhibit]
    exact ⟨sameStore, sameMeter⟩
  case observe =>
    intro executor executor' event event' same
    exact same

/-- Words and frames below a machine, as a disguise. -/
def Disguise.raised (below : List Word) (callers : List Frame) : Disguise where
  machine machine := machine.raised below callers
  stack stack := stack.above below
  withStack _ _ := rfl
  exit _ _ := rfl
  status _ := rfl
  framed machine framed := by
    rcases List.exists_cons_of_ne_nil framed with ⟨frame, inner, frames⟩
    rw [Machine.frames_raised below callers frames]
    exact List.cons_ne_nil _ _
  pop _ nonempty := Stack.pop_above below nonempty
  push _ word _ := Stack.push_above below word

namespace Machine

theorem fits_raised {machine : Machine} (below : List Word) (callers : List Frame)
    (running : machine.status = none) (framed : machine.frames ≠ []) :
    (Disguise.raised below callers).Fits (· = .stopped) machine := by
  refine ⟨inspect?_raised below callers framed, ?_⟩
  by_cases stopped : machine.step.1 = .exited .stopped
  · exact Or.inl ⟨.stopped, stopped, rfl⟩
  · exact Or.inr (step_raised below callers running framed stopped)

/-- A machine holds the values and the frames of another one on top of others. -/
structure Carries (high : Machine) (below : List Word) (callers : List Frame) (low : Machine) :
    Prop where
  words : high.stack.toList = below ++ low.stack.toList
  limit : high.stack.limit = below.length + low.stack.limit
  frames : high.frames = low.frames.map (Frame.raised below.length) ++ callers

theorem carries_raised (machine : Machine) (below : List Word) (callers : List Frame) :
    (machine.raised below callers).Carries below callers machine :=
  ⟨Stack.toList_above below, rfl, rfl⟩

end Machine

namespace Evaluation

variable {σ : Type} {host : Host σ} {alike : σ → σ → Prop} {evaluation : Evaluation}
  {state state' : σ}

/-- The evaluation with its machine on top of other words and frames. -/
def raised (evaluation : Evaluation) (below : List Word) (callers : List Frame) : Evaluation :=
  { evaluation with machine := evaluation.machine.raised below callers }

/-- The same happened to an evaluation and to the raised one. -/
structure Elevated {α : Type} (below : List Word) (callers : List Frame) (alike : σ → σ → Prop)
    (low high : α × Evaluation × σ) : Prop where
  outcome : high.1 = low.1
  evaluation : high.2.1 = low.2.1.raised below callers
  state : alike low.2.2 high.2.2

/-- What becomes of the callers when the evaluation alone stops. -/
structure Departed (below : List Word) (callers : List Frame) (alike : σ → σ → Prop)
    (low high : Option Exit × Evaluation × σ) : Prop where
  exit : high.1 = if callers = [] then some .stopped else none
  stopped : low.2.1.machine.status = some .stopped
  empty : low.2.1.machine.frames = []
  carries : high.2.1.machine.Carries below callers low.2.1.machine
  state : alike low.2.2 high.2.2

theorem Running.raised (running : evaluation.Running) (below : List Word) (callers : List Frame) :
    (evaluation.raised below callers).Running :=
  running.disguised (.raised below callers)

section Steps

variable (below : List Word) (callers : List Frame) (blind : host.Blind alike)
  (same : alike state state')
include blind same

/-- Stepping and raising commute as long as the evaluation alone does not stop. -/
theorem elevated_step (running : evaluation.Running)
    (unstopped : (evaluation.step host state).1 ≠ some .stopped) :
    Elevated below callers alike (evaluation.step host state)
      ((evaluation.raised below callers).step host state') := by
  rcases mirrored_step (blind.mirrors (.raised below callers) evaluation.space _) same running
    (Machine.fits_raised below callers running.machine running.framed) with
    mirrored | ⟨_, stops, rfl⟩
  · exact ⟨mirrored.outcome, mirrored.evaluation, mirrored.state⟩
  · exact absurd stops unstopped

omit blind in
/-- Where the evaluation alone stops, the raised one is back in its callers. -/
theorem departed_step (running : evaluation.Running)
    (stopped : (evaluation.step host state).1 = some .stopped) :
    Departed below callers alike (evaluation.step host state)
      ((evaluation.raised below callers).step host state') := by
  rcases endsAt_of_stopped running (Prod.ext stopped rfl) with ⟨frame, frames, ended, full, _⟩
  have inspects := Machine.inspect?_raised below callers running.framed
  rw [Machine.inspect?_of_endsAt frames ended] at inspects
  have unasked : evaluation.inquiry? host state = none := by
    simp [inquiry?, Machine.inspect?_of_endsAt frames ended]
  have raisedUnasked : (evaluation.raised below callers).inquiry? host state' = none := by
    simp [inquiry?, raised, inspects]
  have stepped : evaluation.machine.step =
      (.exited .stopped, { evaluation.machine with frames := [] }.exit .stopped) := by
    rw [Machine.step_of_endsAt running.machine frames ended]
    unfold Machine.leave
    rw [if_pos full]
    rfl
  have raisedStepped :=
    Machine.step_raised_of_stopped below callers running.machine running.framed stepped
  rw [step_of_unasked running unasked,
    step_of_unasked (running.raised below callers) raisedUnasked]
  cases callers with
  | nil =>
      simp only [proceed, stepped, raised, raisedStepped]
      exact ⟨rfl, rfl, rfl, ⟨Stack.toList_above below, rfl, rfl⟩, same⟩
  | cons caller callers =>
      simp only [proceed, stepped, raised, raisedStepped]
      exact ⟨rfl, rfl, rfl, ⟨Stack.toList_above below, rfl, rfl⟩, same⟩

/-- The steps before the last one leave the raised evaluation as the other, but raised. -/
theorem raised_after (running : evaluation.Running) {steps : Nat}
    (goesOn : ∀ earlier < steps, (evaluation.stepAfter host state earlier).1 = none) :
    let low := evaluation.after host state steps
    let high := (evaluation.raised below callers).after host state' steps
    low.1.Running ∧ high.1 = low.1.raised below callers ∧ alike low.2 high.2 := by
  induction steps with
  | zero => exact ⟨running, rfl, same⟩
  | succ steps ih =>
      rcases ih fun earlier before => goesOn earlier (Nat.lt_succ_of_lt before) with
        ⟨runs, isRaised, sameNow⟩
      have continues := goesOn steps (Nat.lt_succ_self steps)
      have elevated := elevated_step below callers blind sameNow runs (by
        rw [show (Evaluation.step host _ _).1 = none from continues]
        simp)
      rw [← isRaised] at elevated
      exact ⟨running_of_step runs (Prod.ext continues rfl), elevated.evaluation, elevated.state⟩

theorem elevated_stepAfter (running : evaluation.Running) {steps : Nat}
    (goesOn : ∀ earlier < steps, (evaluation.stepAfter host state earlier).1 = none)
    (unstopped : (evaluation.stepAfter host state steps).1 ≠ some .stopped) :
    Elevated below callers alike (evaluation.stepAfter host state steps)
      ((evaluation.raised below callers).stepAfter host state' steps) := by
  rcases raised_after below callers blind same running goesOn with ⟨runs, isRaised, sameNow⟩
  simp only [stepAfter]
  rw [isRaised]
  exact elevated_step below callers blind sameNow runs unstopped

theorem departed_stepAfter (running : evaluation.Running) {steps : Nat}
    (goesOn : ∀ earlier < steps, (evaluation.stepAfter host state earlier).1 = none)
    (stopped : (evaluation.stepAfter host state steps).1 = some .stopped) :
    Departed below callers alike (evaluation.stepAfter host state steps)
      ((evaluation.raised below callers).stepAfter host state' steps) := by
  rcases raised_after below callers blind same running goesOn with ⟨runs, isRaised, sameNow⟩
  simp only [stepAfter]
  rw [isRaised]
  exact departed_step below callers sameNow runs stopped

/-- The raised evaluation carries the other up to and including the step that returns an exit. -/
theorem carries_after (running : evaluation.Running) (steps : Nat)
    (goesOn : ∀ earlier, earlier + 1 < steps → (evaluation.stepAfter host state earlier).1 = none) :
    let low := evaluation.after host state steps
    let high := (evaluation.raised below callers).after host state' steps
    high.1.machine.Carries below callers low.1.machine ∧ alike low.2 high.2 := by
  cases steps with
  | zero => exact ⟨Machine.carries_raised .., same⟩
  | succ steps =>
      have before : ∀ earlier < steps, (evaluation.stepAfter host state earlier).1 = none :=
        fun earlier isBefore => goesOn earlier (Nat.succ_lt_succ isBefore)
      by_cases stopped : (evaluation.stepAfter host state steps).1 = some .stopped
      · have departed := departed_stepAfter below callers blind same running before stopped
        exact ⟨departed.carries, departed.state⟩
      · have elevated := elevated_stepAfter below callers blind same running before stopped
        refine ⟨?_, elevated.state⟩
        rw [show (after _ _ _ (steps + 1)).1 = _ from elevated.evaluation]
        exact Machine.carries_raised ..

end Steps

/-- Two hosts that give the same answers take an evaluation through the same steps. -/
theorem abreast_stepAfter {τ : Type} {left : Host σ} {right : Host τ} {alike : σ → τ → Prop}
    {state : σ} {state' : τ} (pace : left.KeepsPace right evaluation.space alike fun _ => False)
    (same : alike state state') (running : evaluation.Running) (steps : Nat) :
    Abreast alike (evaluation.stepAfter left state steps)
      (evaluation.stepAfter right state' steps) := by
  induction steps with
  | zero =>
      rcases abreast_step pace same running with abreast | ⟨_, _, lags⟩
      · exact abreast
      · exact lags.elim
  | succ steps ih =>
      have moment := running_or_ended_after left state running (steps + 1)
      have sameEvaluation : (evaluation.after left state (steps + 1)).1 =
          (evaluation.after right state' (steps + 1)).1 := ih.evaluation
      have sameState : alike (evaluation.after left state (steps + 1)).2
          (evaluation.after right state' (steps + 1)).2 := ih.state
      simp only [stepAfter]
      rw [← sameEvaluation]
      rcases moment with ⟨runs, owned⟩ | ⟨exit, ended⟩
      · rcases abreast_step (owned ▸ pace) sameState runs with abreast | ⟨_, _, lags⟩
        · exact abreast
        · exact lags.elim
      · rw [step_of_ended ended, step_of_ended ended]
        exact ⟨rfl, rfl, sameState⟩

/-- The accesses that a number of steps ask a host for, in order. -/
def accesses (host : Host σ) (evaluation : Evaluation) (state : σ) (steps : Nat) : List Call :=
  (evaluation.after host.logging (state, []) steps).2.2

/--
A callee runs as its source would alone, on the callee's inputs and with the room
that is left to it. Step by step both run the same instruction, make the same
accesses and have the same frames and values, the callee's on top of those of its
callers. They fail alike, or both come to the end of the source with the declared
number of values, and the callers go on with theirs as they were.
-/
theorem callee_runs_as_if_alone (blind : host.Blind alike) (same : alike state state')
    (program : Program) (context : Context) (layout : Layout) (space : Word)
    (source outputs : Nat) (inputs : Stack) (below : List Word) (callers : List Frame) :
    let alone := start ⟨program, context, layout, [⟨source, 0, 0, outputs⟩], inputs, none⟩ space
    let called := start ⟨program, context, layout, ⟨source, 0, below.length, outputs⟩ :: callers,
      inputs.above below, none⟩ space
    let low := alone.after host state
    let high := called.after host state'
    ∃ count exit,
      alone.run host state = (exit, low (count + 1)) ∧
      (∀ steps < count, (alone.stepAfter host state steps).1 = none ∧
        (called.stepAfter host state' steps).1 = none) ∧
      (∀ steps ≤ count, (low steps).1.machine.frames ≠ [] ∧
        (high steps).1.machine.inspect? = (low steps).1.machine.inspect?) ∧
      (∀ steps ≤ count + 1,
        (high steps).1.machine.Carries below callers (low steps).1.machine ∧
        called.accesses host state' steps = alone.accesses host state steps ∧
        alike (low steps).2 (high steps).2) ∧
      (∀ failure, exit = .failed failure →
        (called.stepAfter host state' count).1 = some (.failed failure)) ∧
      (exit = .stopped →
        (called.stepAfter host state' count).1 = (if callers = [] then some .stopped else none) ∧
        (high (count + 1)).1.machine.frames = callers ∧
        (low (count + 1)).1.machine.stack.size = outputs) := by
  intro alone called low high
  have running : alone.Running := ⟨rfl, rfl, List.cons_ne_nil _ _⟩
  rcases exists_last_step host alone state with ⟨count, _, exit, before, last, ran⟩
  have logged (steps : Nat) : Abreast (fun state logged => state = logged.1)
      (alone.stepAfter host state steps) (alone.stepAfter host.logging (state, []) steps) := by
    apply abreast_stepAfter (host.keepsPace_logging space) ?_ running
    rfl
  refine ⟨count, exit, ran, ?_, ?_, ?_, ?_, ?_⟩
  · intro steps isBefore
    have goesOn := before steps isBefore
    have earlierGoOn : ∀ earlier < steps, (alone.stepAfter host state earlier).1 = none :=
      fun earlier isEarlier => before earlier (Nat.lt_trans isEarlier isBefore)
    have elevated :=
      elevated_stepAfter below callers blind same running earlierGoOn (by simp [goesOn])
    exact ⟨goesOn, elevated.outcome.trans goesOn⟩
  · intro steps within
    have earlierGoOn : ∀ earlier < steps, (alone.stepAfter host state earlier).1 = none :=
      fun earlier isEarlier => before earlier (Nat.lt_of_lt_of_le isEarlier within)
    rcases raised_after below callers blind same running earlierGoOn with ⟨runs, isRaised, _⟩
    refine ⟨runs.framed, ?_⟩
    rw [show (high steps).1 = _ from isRaised]
    exact Machine.inspect?_raised below callers runs.framed
  · intro steps within
    have isBefore {earlier : Nat} (isEarlier : earlier + 1 < steps) : earlier < count := by omega
    have carried := carries_after below callers blind same running steps
      fun earlier isEarlier => before earlier (isBefore isEarlier)
    have loggedGoOn : ∀ earlier, earlier + 1 < steps →
        (alone.stepAfter host.logging (state, []) earlier).1 = none := by
      intro earlier isEarlier
      rw [← (logged earlier).outcome]
      exact before earlier (isBefore isEarlier)
    have sameStart : Host.LoggedAlike alike (state, []) (state', []) := ⟨same, rfl⟩
    have sameLog := carries_after below callers blind.logging sameStart running steps loggedGoOn
    exact ⟨carried.1, sameLog.2.2.symm, carried.2⟩
  · rintro failure rfl
    have elevated := elevated_stepAfter below callers blind same running before (by simp [last])
    exact elevated.outcome.trans last
  · rintro rfl
    have departed := departed_stepAfter below callers blind same running before last
    have orderly : (low (count + 1)).1.machine.Orderly source outputs := by
      refine after_induction (fun machine => machine.Orderly source outputs) ?_ running
        (Machine.orderly_of_entry rfl rfl) (count + 1)
      intro machine after exit? runs turns orderly
      exact orderly.of_turns runs turns
    have frames := departed.carries.frames
    rw [departed.empty] at frames
    refine ⟨departed.exit, frames, (orderly.stopped departed.stopped).2⟩

/-- A callee that writes its input and reads it back, with two words of its caller below. -/
theorem callee_runs_as_if_alone_written :
    let program : Program := ⟨#[#[0x03, 0x11], #[0x01, 0, 0x00, 0, 0x31, 0, 0x30, 0]], #[100]⟩
    let host : Host (Executor SparseStore) := Executor.host
    let alike : Executor SparseStore → Executor SparseStore → Prop := fun left right =>
      left.store = right.store ∧ left.meter = right.meter
    let state : Executor SparseStore := .start {} 9
    let inputs : Stack := ⟨#[7], 3, by decide⟩
    let caller : Frame := ⟨0, 2, 0, 3⟩
    let called := start ⟨program, ⟨[]⟩, .standard, [⟨1, 0, 2, 1⟩, caller],
      inputs.above [11, 12], none⟩ 0
    host.Blind alike ∧ alike state state ∧
      ∃ count, (called.stepAfter host state count).1 = none ∧
        let back := (called.after host state (count + 1)).1.machine
        back.frames = [caller] ∧ back.stack.toList = [11, 12, 100] := by
  intro program host alike state inputs caller called
  have blind : host.Blind alike := Executor.host_blind
  have same : alike state state := ⟨rfl, rfl⟩
  refine ⟨blind, same, ?_⟩
  let alone := start ⟨program, ⟨[]⟩, .standard, [⟨1, 0, 0, 1⟩], inputs, none⟩ 0
  have ended : (alone.runFor host 5 state).map
      (fun ended => (ended.1, ended.2.1.machine.stack.toList)) = some (.stopped, [100]) := by
    decide +kernel
  rcases Option.map_eq_some_iff.mp ended with ⟨last, found, shown⟩
  rcases callee_runs_as_if_alone blind same program ⟨[]⟩ .standard 0 1 1 inputs [11, 12]
    [caller] with ⟨count, exit, ran, _, _, carries, _, leaves⟩
  have isLast := (run_of_runFor found).symm.trans ran
  subst isLast
  simp only [Prod.mk.injEq] at shown
  rcases leaves shown.1 with ⟨goesOn, frames, _⟩
  refine ⟨count, goesOn, frames, ?_⟩
  have words := (carries (count + 1) (Nat.le_refl _)).1.words
  rw [shown.2] at words
  exact words

end Evaluation

end StackCert
