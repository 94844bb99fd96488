import StackCert.Host.Plain
import StackCert.Proofs.Consultation
import StackCert.Proofs.Turn

/-!
# Driving a machine by hand

An evaluation steps its machine and resolves a trap as part of the step. One can also do
without it: let the machine run to the next trap, do on its stack what the instruction
asks for, and let it run again (`Machine.byHand`). The two differ in what they do at a
time, in what they keep, and in that only an evaluation announces anything. For a host
that permits everything they come to the same end. A step of an evaluation that stays
within the machine leaves the run to the next trap as it is, and a step that traps does
what the hand does, because a trapped instruction has its values on the stack and the
host is the only one to fail.

The loop has no answer for a trap that is not one of the host's, or for a stack that
lacks the values or the room, and it never needs one.
-/

namespace StackCert

variable {σ τ : Type}

/-- The host with a listener beside it, to which all events go. -/
def Host.withListener (host : Host σ) (listen : τ → Event → τ) : Host (σ × τ) where
  get state space key :=
    let answer := host.get state.1 space key
    (answer.1, answer.2, state.2)
  set state space key value :=
    let answer := host.set state.1 space key value
    (answer.1, answer.2, state.2)
  permit state instruction stack :=
    let answer := host.permit state.1 instruction stack
    (answer.1, answer.2, state.2)
  debug state style machine :=
    let answer := host.debug state.1 style machine
    (answer.1, answer.2, state.2)
  observe state event := (state.1, listen state.2 event)

namespace Machine

theorem run_ne_continued (machine : Machine) : machine.run.1 ≠ .continued := by
  induction machine using run.induct with
  | case1 machine stepped continued ih =>
      rw [run_of_continued continued]
      exact ih
  | case2 machine stepped ended =>
      rw [run_of_not_continued ended]
      exact ended

theorem remaining_run_lt {machine after : Machine} {instruction : Instruction}
    (ran : machine.run = (.trapped instruction, after)) :
    after.remaining < machine.remaining := by
  induction machine using run.induct with
  | case1 machine stepped continued ih =>
      rw [run_of_continued continued] at ran
      exact Nat.lt_trans (ih ran) (remaining_step_lt_of_continued continued)
  | case2 machine stepped ended =>
      rw [run_of_not_continued ended] at ran
      exact remaining_step_lt ran (by simp)

section Attend

variable (host : Host σ) (space : Word) (machine : Machine) (state : σ)

/-- Takes a key from the stack, has it read and puts the value on the stack. -/
def attendGet : Option (Except Failure Unit × Machine × σ) := do
  let (key, below) ← machine.stack.pop.toOption
  match host.get state space key with
  | (.error failure, state) => return (.error failure, { machine with stack := below }, state)
  | (.ok value, state) =>
      let stack ← (below.push value).toOption
      return (.ok (), { machine with stack }, state)

/-- Takes a value and a key from the stack and has the value written. -/
def attendSet : Option (Except Failure Unit × Machine × σ) := do
  let (value, keyed) ← machine.stack.pop.toOption
  let (key, below) ← keyed.pop.toOption
  let (result, state) := host.set state space key value
  return (result, { machine with stack := below }, state)

/-- Has the part of the machine shown that an operand names. -/
def attendDebug (operand : UInt8) : Option (Except Failure Unit × Machine × σ) := do
  let style ← DebugStyle.ofNat? operand.toNat
  let (result, state) := host.debug state style machine
  return (result, machine, state)

/--
Does on the stack of a machine what an instruction that it trapped on asks for. There is
no result if that cannot be done, whatever the host would answer.
-/
def attend (instruction : Instruction) : Option (Except Failure Unit × Machine × σ) :=
  match instruction.operation with
  | .ok .get => machine.attendGet host space state
  | .ok .set => machine.attendSet host space state
  | .ok .debug => machine.attendDebug host state instruction.operand
  | _ => none

end Attend

variable {host : Host σ} {space : Word} {machine after : Machine} {state state' : σ}
  {instruction : Instruction} {result : Except Failure Unit}

theorem remaining_attend
    (attended : machine.attend host space state instruction = some (result, after, state')) :
    after.remaining = machine.remaining := by
  unfold attend at attended
  split at attended
  · simp only [attendGet, bind, Option.bind_eq_some_iff] at attended
    rcases attended with ⟨⟨key, below⟩, _, answered⟩
    split at answered
    · cases answered
      rfl
    · simp only [Option.bind_eq_some_iff] at answered
      rcases answered with ⟨stack, _, returned⟩
      cases returned
      rfl
  · simp only [attendSet, bind, Option.bind_eq_some_iff] at attended
    rcases attended with ⟨⟨value, keyed⟩, _, ⟨key, below⟩, _, returned⟩
    cases returned
    rfl
  · simp only [attendDebug, bind, Option.bind_eq_some_iff] at attended
    rcases attended with ⟨style, _, returned⟩
    cases returned
    rfl
  · cases attended

/--
Lets a machine run, attends to what it traps on and lets it run again, until it exits or
the host fails.
-/
def byHand (host : Host σ) (space : Word) (machine : Machine) (state : σ) :
    Option (Exit × Machine × σ) :=
  match _ : machine.run with
  | (.continued, _) => none
  | (.exited exit, after) => some (exit, after, state)
  | (.trapped instruction, trapped) =>
      match _ : trapped.attend host space state instruction with
      | none => none
      | some (.error failure, after, state') => some (.failed failure, after, state')
      | some (.ok (), next, state') => next.byHand host space state'
termination_by machine.remaining
decreasing_by
  rw [remaining_attend (by assumption)]
  exact remaining_run_lt (by assumption)

theorem byHand_of_exited {exit : Exit} (ran : machine.run = (.exited exit, after)) :
    machine.byHand host space state = some (exit, after, state) := by
  rw [byHand]
  split
  · simp_all
  · simp_all
  · simp_all

theorem byHand_of_trapped {trapped : Machine}
    (ran : machine.run = (.trapped instruction, trapped)) :
    machine.byHand host space state =
      match trapped.attend host space state instruction with
      | none => none
      | some (.error failure, after, state') => some (.failed failure, after, state')
      | some (.ok (), next, state') => next.byHand host space state' := by
  rw [byHand]
  split
  · simp_all
  · simp_all
  · rename_i ran'
    cases ran.symm.trans ran'
    split <;> simp_all

theorem byHand_of_continued (stepped : machine.step = (.continued, after)) :
    machine.byHand host space state = after.byHand host space state := by
  have same : after.run = machine.run := by
    rw [run_of_continued (congrArg Prod.fst stepped), stepped]
  rcases ran : machine.run with ⟨outcome, left⟩
  cases outcome with
  | continued => exact absurd (congrArg Prod.fst ran) machine.run_ne_continued
  | exited exit => rw [byHand_of_exited ran, byHand_of_exited (same.trans ran)]
  | trapped instruction => rw [byHand_of_trapped ran, byHand_of_trapped (same.trans ran)]

theorem run_of_step_eq {outcome : Outcome} (stepped : machine.step = (outcome, after))
    (ended : outcome ≠ .continued) : machine.run = (outcome, after) := by
  rw [run_of_not_continued, stepped]
  rw [stepped]
  exact ended

end Machine

namespace Evaluation

variable {host : Host σ} {listen : τ → Event → τ} {evaluation after : Evaluation}
  {state state' : σ × τ} {instruction : Instruction} {result : Except Failure Unit}

/-- What a listener has heard makes no difference to an answer. -/
theorem answer_of_beside {α : Type} {answer : α × σ} {heard : τ} {value : α} {answered : σ × τ}
    (told : (answer.1, answer.2, heard) = (value, answered)) : answer = (value, answered.1) := by
  cases told
  rfl

theorem attend_of_resolves
    (resolves : evaluation.Resolves (host.withListener listen) state instruction result after
      state') :
    evaluation.machine.attend host evaluation.space state.1 instruction =
      some (result, after.machine, state'.1) ∧ after.space = evaluation.space := by
  cases resolves with
  | read assigned popped answer pushed =>
      refine ⟨?_, rfl⟩
      simp [Machine.attend, assigned, Machine.attendGet, popped, Except.toOption,
        answer_of_beside answer, pushed, withStack, Host.withListener]
  | unread assigned popped answer =>
      refine ⟨?_, rfl⟩
      simp [Machine.attend, assigned, Machine.attendGet, popped, Except.toOption,
        answer_of_beside answer, withStack]
  | written assigned valuePopped keyPopped answer =>
      refine ⟨?_, rfl⟩
      simp [Machine.attend, assigned, Machine.attendSet, valuePopped, keyPopped, Except.toOption,
        answer_of_beside answer, withStack, Host.withListener]
  | unwritten assigned valuePopped keyPopped answer =>
      refine ⟨?_, rfl⟩
      simp [Machine.attend, assigned, Machine.attendSet, valuePopped, keyPopped, Except.toOption,
        answer_of_beside answer, withStack]
  | shown assigned named answer =>
      refine ⟨?_, rfl⟩
      simp [Machine.attend, assigned, Machine.attendDebug, named, answer_of_beside answer]

section Lenient

variable (lenient : ∀ state instruction stack,
  host.permit state instruction stack = (.ok (), state))
include lenient

theorem admission_withListener (evaluation : Evaluation) (state : σ × τ)
    (instruction : Instruction) :
    evaluation.admission (host.withListener listen) state instruction =
      (.ok (), state.1,
        listen state.2 (.step evaluation.space instruction evaluation.machine.stack)) := by
  simp only [admission, Host.withListener, lenient]

theorem fst_eq_of_admits (admits : evaluation.Admits (host.withListener listen) state state') :
    state'.1 = state.1 := by
  cases admits with
  | unasked => rfl
  | permitted inspected answer =>
      rw [admission_withListener lenient] at answer
      cases answer
      rfl

/-- A step after which the evaluation goes on does not change where the hand comes to. -/
theorem byHand_of_goesOn (running : evaluation.Running)
    (stepped : evaluation.step (host.withListener listen) state = (none, after, state')) :
    evaluation.machine.byHand host evaluation.space state.1 =
      after.machine.byHand host after.space state'.1 := by
  cases consults_of_step running stepped with
  | alone admits machineStepped =>
      rw [Machine.byHand_of_continued machineStepped, fst_eq_of_admits lenient admits]
  | resolved admits machineStepped resolves =>
      rcases attend_of_resolves resolves with ⟨attended, sameSpace⟩
      rw [fst_eq_of_admits lenient admits] at attended
      rw [Machine.byHand_of_trapped (Machine.run_of_step_eq machineStepped (by simp)), attended,
        sameSpace]

/-- A step that ends the evaluation is where the hand stops as well. -/
theorem byHand_of_ends {exit : Exit} (running : evaluation.Running)
    (stepped : evaluation.step (host.withListener listen) state = (some exit, after, state')) :
    ∃ machine, evaluation.machine.byHand host evaluation.space state.1 =
        some (exit, machine, state'.1) ∧
      machine.stack = after.machine.stack ∧ machine.frames = after.machine.frames := by
  cases consults_of_step running stepped with
  | denied inspected answer =>
      rw [admission_withListener lenient] at answer
      simp at answer
  | exited admits machineStepped =>
      rw [Machine.byHand_of_exited (Machine.run_of_step_eq machineStepped (by simp)),
        fst_eq_of_admits lenient admits]
      exact ⟨_, rfl, rfl, rfl⟩
  | refused admits machineStepped resolves =>
      rcases attend_of_resolves resolves with ⟨attended, _⟩
      rw [fst_eq_of_admits lenient admits] at attended
      rw [Machine.byHand_of_trapped (Machine.run_of_step_eq machineStepped (by simp)), attended]
      exact ⟨_, rfl, rfl, rfl⟩

theorem byHand_of_run {exit : Exit} (running : evaluation.Running)
    (ran : evaluation.run (host.withListener listen) state = (exit, after, state')) :
    ∃ machine, evaluation.machine.byHand host evaluation.space state.1 =
        some (exit, machine, state'.1) ∧
      machine.stack = after.machine.stack ∧ machine.frames = after.machine.frames := by
  refine run_induction
    (fun now reached => now.Running ∧
      evaluation.machine.byHand host evaluation.space state.1 =
        now.machine.byHand host now.space reached.1)
    (fun exit after reached => ∃ machine,
      evaluation.machine.byHand host evaluation.space state.1 = some (exit, machine, reached.1) ∧
        machine.stack = after.machine.stack ∧ machine.frames = after.machine.frames)
    ?_ ?_ ⟨running, rfl⟩ ran
  · rintro now next reached reached' ⟨runs, same⟩ stepped
    exact ⟨running_of_step runs stepped, same.trans (byHand_of_goesOn lenient runs stepped)⟩
  · rintro now next reached reached' exit ⟨runs, same⟩ stepped
    rw [same]
    exact byHand_of_ends lenient runs stepped

end Lenient

/-- An instruction that the machine traps on is resolved, or the host fails. -/
theorem resolves_after (host : Host σ) (state : σ) (running : evaluation.Running) (steps : Nat)
    {machine : Machine}
    (trapped : (evaluation.after host state steps).1.machine.step =
      (.trapped instruction, machine)) (asked : σ) :
    let now := { (evaluation.after host state steps).1 with machine }
    ∃ result after answered, now.resolve host instruction asked = (result, after, answered) ∧
      now.Resolves host asked instruction result after answered := by
  intro now
  refine ⟨_, _, _, rfl, ?_⟩
  rcases running_or_ended_after host state running steps with ⟨runs, _⟩ | ⟨exit, ended⟩
  · rcases resolves_of_trapped runs trapped rfl with ⟨_, _, _, _, _, _, _, resolves⟩
    exact resolves
  · rw [ended.step_machine] at trapped
    simp at trapped

/--
Running an evaluation equals driving its machine by hand. For a host that permits every
instruction and takes no notice of it, whatever else it does and whoever listens to the
events, a run ends with the same exit, stack, frames and state of the host as the loop
that lets the machine run, attends to each trap on the stack, and stops if the host
fails. The loop always comes to an end. Nor does the evaluation ever come to a trap that
it has no answer for or that the stack is not prepared for: each is resolved, or it is
the host that fails.
-/
theorem run_equals_driving_by_hand {host : Host σ}
    (lenient : ∀ state instruction stack, host.permit state instruction stack = (.ok (), state))
    (listen : τ → Event → τ) (program : Program) (context : Context)
    (source outputs stackLimit : Nat) (layout : Layout) (space : Word) (state : σ) (heard : τ) :
    let machine := Machine.start program context source outputs stackLimit layout
    let evaluation := start machine space
    let ran := evaluation.run (host.withListener listen) (state, heard)
    (∃ left, machine.byHand host space state = some (ran.1, left, ran.2.2.1) ∧
      left.stack = ran.2.1.machine.stack ∧ left.frames = ran.2.1.machine.frames) ∧
    ∀ (steps : Nat) (instruction : Instruction) (trapped : Machine),
      let now := evaluation.after (host.withListener listen) (state, heard) steps
      now.1.machine.step = (.trapped instruction, trapped) →
      ∀ asked, ∃ result resolved answered,
        { now.1 with machine := trapped }.resolve (host.withListener listen) instruction asked =
          (result, resolved, answered) ∧
        { now.1 with machine := trapped }.Resolves (host.withListener listen) asked instruction
          result resolved answered := by
  intro machine evaluation ran
  have running : evaluation.Running :=
    running_start program context source outputs stackLimit layout space
  have driven : evaluation.run (host.withListener listen) (state, heard) =
    (ran.1, ran.2.1, ran.2.2) := rfl
  refine ⟨byHand_of_run lenient running driven, ?_⟩
  intro steps instruction trapped now stepped asked
  exact resolves_after (host.withListener listen) (state, heard) running steps stepped asked

/--
A callee writes its input as a key, reads it back and has the stack shown. By hand this
takes four runs of the machine, while a listener to the evaluation hears nine events.
-/
theorem run_equals_driving_by_hand_called :
    let program : Program :=
      ⟨#[#[0x00, 1, 0x03, 0x51], #[0x01, 0, 0x00, 0, 0x31, 0, 0x30, 0, 0x04, 0]], #[100, 7]⟩
    let host : Host (PlainHost SparseStore) := PlainHost.host
    let machine := Machine.start program ⟨[]⟩ 0 1 3 .standard
    (∀ state instruction stack, host.permit state instruction stack = (.ok (), state)) ∧
      (machine.byHand host 3 ⟨{}, {}⟩).map
          (fun ended => (ended.1, ended.2.1.stack.toList, ended.2.1.frames, ended.2.2.store)) =
        some (.stopped, [100], [], ⟨.ofList [⟨⟨3, 7⟩, 100⟩]⟩) := by
  intro program host machine
  have lenient : ∀ state instruction stack,
      host.permit state instruction stack = (.ok (), state) := fun _ _ _ => rfl
  let listen : Nat → Event → Nat := fun heard _ => heard + 1
  have ended : ((start machine 3).runFor (host.withListener listen) 9 (⟨{}, {}⟩, 0)).map
      (fun ended => (ended.1, ended.2.1.machine.stack.toList, ended.2.1.machine.frames,
        ended.2.2.1.store, ended.2.2.2)) =
      some (.stopped, [100], [], ⟨.ofList [⟨⟨3, 7⟩, 100⟩]⟩, 9) := by
    decide +kernel
  rcases Option.map_eq_some_iff.mp ended with ⟨last, found, shown⟩
  have driven := (run_equals_driving_by_hand lenient listen program ⟨[]⟩ 0 1 3 .standard 3
    ⟨{}, {}⟩ 0).1
  rw [run_of_runFor found] at driven
  simp only [Prod.mk.injEq] at shown
  rcases shown with ⟨exit, words, frames, store, _⟩
  rcases driven with ⟨left, byHand, sameStack, sameFrames⟩
  refine ⟨lenient, ?_⟩
  rw [byHand, Option.map_some, sameStack, sameFrames, exit, words, frames, store]

end Evaluation

end StackCert
