import StackCert.Proofs.Soundness

/-!
# What a run asks its host to permit

Before each instruction an evaluation asks its host to permit it. `Host.recording`
is a host with a list of these inquiries beside its own state, and nothing else
about it is different: a run over it is the run over the plain host
(`Evaluation.run_recording`). The list that it ends with, `Evaluation.inquiries`,
is therefore a property of the plain run. An inquiry holds the state in which it
was made, so the list also shows what the host's state was between any two
instructions.

`Evaluation.Concludes` describes the end of a run together with its inquiries: all
of them were granted, but for the last one if the host denied it, and a contract
that the host keeps holds at every inquiry with the number of those before it.
-/

namespace StackCert

/-- A request to permit an instruction, as the host is handed it. -/
structure Inquiry (σ : Type) where
  instruction : Instruction
  stack : Stack
  /-- The state of the host when it is asked: all earlier instructions have been run. -/
  state : σ

namespace Inquiry

variable {σ : Type}

/-- How a host answers an inquiry. -/
def answer (host : Host σ) (inquiry : Inquiry σ) : Except Failure Unit × σ :=
  host.permit inquiry.state inquiry.instruction inquiry.stack

/-- Whether a host permits the instruction. -/
def granted (host : Host σ) (inquiry : Inquiry σ) : Bool := (inquiry.answer host).1.isOk

theorem granted_of_answer {host : Host σ} {inquiry : Inquiry σ} {permitted : σ}
    (answered : inquiry.answer host = (.ok (), permitted)) : inquiry.granted host = true := by
  simp [granted, answered, Except.isOk, Except.toBool]

theorem not_granted_of_answer {host : Host σ} {inquiry : Inquiry σ} {failure : Failure}
    {denied : σ} (answered : inquiry.answer host = (.error failure, denied)) :
    inquiry.granted host = false := by
  simp [granted, answered, Except.isOk, Except.toBool]

end Inquiry

/-- The host with a list of what it was asked to permit, in order. -/
def Host.recording {σ : Type} (host : Host σ) : Host (σ × List (Inquiry σ)) where
  get state space key :=
    let answer := host.get state.1 space key
    (answer.1, answer.2, state.2)
  set state space key value :=
    let answer := host.set state.1 space key value
    (answer.1, answer.2, state.2)
  permit state instruction stack :=
    let answer := host.permit state.1 instruction stack
    (answer.1, answer.2, state.2 ++ [⟨instruction, stack, state.1⟩])
  debug state style machine :=
    let answer := host.debug state.1 style machine
    (answer.1, answer.2, state.2)
  observe state event := (host.observe state.1 event, state.2)

namespace Evaluation

variable {σ : Type} {host : Host σ} {evaluation : Evaluation} {state : σ}

/-- The inquiry that a step makes, if there is an instruction to run. -/
def inquiry? (host : Host σ) (evaluation : Evaluation) (state : σ) : Option (Inquiry σ) :=
  evaluation.machine.inspect?.map fun instruction =>
    ⟨instruction, evaluation.machine.stack,
      host.observe state (.step evaluation.space instruction evaluation.machine.stack)⟩

/-- What a run hands to its host for permission, in order. -/
def inquiries (host : Host σ) (evaluation : Evaluation) (state : σ) : List (Inquiry σ) :=
  (evaluation.run host.recording (state, [])).2.2.2

theorem permit_of_unasked (unasked : evaluation.inquiry? host state = none) :
    evaluation.permit host state = (evaluation, state) := by
  have nothing : evaluation.machine.inspect? = none := by
    simpa [inquiry?] using unasked
  simp only [permit, nothing]

theorem permit_of_granted {inquiry : Inquiry σ} {permitted : σ}
    (asked : evaluation.inquiry? host state = some inquiry)
    (answered : inquiry.answer host = (.ok (), permitted)) :
    evaluation.permit host state = (evaluation, permitted) := by
  rcases Option.map_eq_some_iff.mp asked with ⟨instruction, inspected, rfl⟩
  rw [Inquiry.answer] at answered
  simp only [permit, inspected, answered]

theorem permit_of_denied {inquiry : Inquiry σ} {failure : Failure} {denied : σ}
    (asked : evaluation.inquiry? host state = some inquiry)
    (answered : inquiry.answer host = (.error failure, denied)) :
    evaluation.permit host state = (evaluation.exit (.failed failure), denied) := by
  rcases Option.map_eq_some_iff.mp asked with ⟨instruction, inspected, rfl⟩
  rw [Inquiry.answer] at answered
  simp only [permit, inspected, answered]

theorem step_of_unasked (running : evaluation.Running)
    (unasked : evaluation.inquiry? host state = none) :
    evaluation.step host state = evaluation.proceed host state := by
  simp only [step, permit_of_unasked unasked, running.status]

theorem step_of_granted {inquiry : Inquiry σ} {permitted : σ} (running : evaluation.Running)
    (asked : evaluation.inquiry? host state = some inquiry)
    (answered : inquiry.answer host = (.ok (), permitted)) :
    evaluation.step host state = evaluation.proceed host permitted := by
  simp only [step, permit_of_granted asked answered, running.status]

theorem step_of_denied {inquiry : Inquiry σ} {failure : Failure} {denied : σ}
    (asked : evaluation.inquiry? host state = some inquiry)
    (answered : inquiry.answer host = (.error failure, denied)) :
    evaluation.step host state =
      (some (.failed failure), evaluation.exit (.failed failure), denied) := by
  simp only [step, permit_of_denied asked answered, exit]

section Recording

variable (host evaluation state) (asked : List (Inquiry σ))

theorem permit_recording :
    evaluation.permit host.recording (state, asked) =
      ((evaluation.permit host state).1, (evaluation.permit host state).2,
        asked ++ (evaluation.inquiry? host state).toList) := by
  unfold permit inquiry?
  cases evaluation.machine.inspect? with
  | none => simp
  | some instruction =>
      simp only [Host.recording, Option.map_some, Option.toList_some]
      rcases host.permit
        (host.observe state (.step evaluation.space instruction evaluation.machine.stack))
        instruction evaluation.machine.stack with ⟨_ | _, permitted⟩ <;> rfl

theorem resolve_recording (instruction : Instruction) :
    evaluation.resolve host.recording instruction (state, asked) =
      ((evaluation.resolve host instruction state).1,
        (evaluation.resolve host instruction state).2.1,
        (evaluation.resolve host instruction state).2.2, asked) := by
  unfold resolve
  split
  · unfold resolveGet
    cases evaluation.machine.stack.pop with
    | error failure => rfl
    | ok popped =>
        rcases answered : host.get state evaluation.space popped.1 with ⟨_ | value, after⟩
        · simp [Host.recording, answered]
        · cases pushed : popped.2.push value <;> simp [Host.recording, answered, pushed]
  · unfold resolveSet
    cases evaluation.machine.stack.pop with
    | error failure => rfl
    | ok popped =>
        cases keyPopped : popped.2.pop with
        | error failure => simp [keyPopped]
        | ok keyed =>
            rcases answered : host.set state evaluation.space keyed.1 popped.1 with
              ⟨_ | _, after⟩ <;> simp [Host.recording, answered, keyPopped]
  · unfold resolveDebug
    split <;> rfl
  · rfl

theorem proceed_recording :
    evaluation.proceed host.recording (state, asked) =
      ((evaluation.proceed host state).1, (evaluation.proceed host state).2.1,
        (evaluation.proceed host state).2.2, asked) := by
  unfold proceed
  split
  · rfl
  · rfl
  · rename_i instruction machine stepped
    rw [resolve_recording]
    rcases resolve host { evaluation with machine } instruction state with
      ⟨_ | _, after, state'⟩ <;> rfl

/-- A step over a recording host is the step over the host, with its inquiry recorded. -/
theorem step_recording :
    evaluation.step host.recording (state, asked) =
      ((evaluation.step host state).1, (evaluation.step host state).2.1,
        (evaluation.step host state).2.2,
        asked ++ (evaluation.inquiry? host state).toList) := by
  unfold step
  rw [permit_recording]
  rcases evaluation.permit host state with ⟨admitted, permitted⟩
  cases ended : admitted.status with
  | some exit => simp [ended]
  | none => simp [ended, proceed_recording]

/-- A run over a recording host is the run over the host, with its inquiries recorded. -/
theorem run_recording :
    evaluation.run host.recording (state, asked) =
      ((evaluation.run host state).1, (evaluation.run host state).2.1,
        (evaluation.run host state).2.2, asked ++ evaluation.inquiries host state) := by
  induction evaluation, state using run.induct host generalizing asked with
  | case1 evaluation state stepped exit ended =>
      have endedRecording (asked : List (Inquiry σ)) :
          (evaluation.step host.recording (state, asked)).1 = some exit := by
        rw [step_recording]
        exact ended
      rw [inquiries, run_of_some (endedRecording asked), run_of_some (endedRecording []),
        run_of_some ended, step_recording, step_recording]
      rfl
  | case2 evaluation state stepped goesOn ih =>
      have goesOnRecording (asked : List (Inquiry σ)) :
          (evaluation.step host.recording (state, asked)).1 = none := by
        rw [step_recording]
        exact goesOn
      rw [inquiries, run_of_none (goesOnRecording asked), run_of_none (goesOnRecording []),
        run_of_none goesOn, step_recording, step_recording]
      simp only [ih, stepped, List.nil_append, List.append_assoc]

end Recording

theorem inquiries_of_some {exit : Exit} (ended : (evaluation.step host state).1 = some exit) :
    evaluation.inquiries host state = (evaluation.inquiry? host state).toList := by
  have endedRecording : (evaluation.step host.recording (state, [])).1 = some exit := by
    rw [step_recording]
    exact ended
  rw [inquiries, run_of_some endedRecording, step_recording]
  rfl

theorem inquiries_of_none (goesOn : (evaluation.step host state).1 = none) :
    evaluation.inquiries host state =
      (evaluation.inquiry? host state).toList ++
        (evaluation.step host state).2.1.inquiries host (evaluation.step host state).2.2 := by
  have goesOnRecording : (evaluation.step host.recording (state, [])).1 = none := by
    rw [step_recording]
    exact goesOn
  rw [inquiries, run_of_none goesOnRecording, step_recording, run_recording]
  rfl

/--
The end of a run with its inquiries, `count` instructions having been permitted
before it: the host denied the last one, or it granted all and then refused to
resolve an instruction, or the machine exited by itself.
-/
inductive Concludes (host : Host σ) (going : Nat → σ → Prop) (refused : Failure → σ → Prop)
    (count : Nat) : List (Inquiry σ) → Exit → Evaluation → σ → Prop where
  | denied {front : List (Inquiry σ)} {inquiry : Inquiry σ} {failure : Failure}
      {after : Evaluation} {state : σ}
      (granted : ∀ earlier ∈ front, earlier.granted host = true)
      (held : going (count + front.length) inquiry.state)
      (answered : inquiry.answer host = (.error failure, state)) :
      Concludes host going refused count (front ++ [inquiry]) (.failed failure) after state
  | refused {asked : List (Inquiry σ)} {failure : Failure} {after : Evaluation} {state : σ}
      (granted : ∀ inquiry ∈ asked, inquiry.granted host = true)
      (refuses : refused failure state) :
      Concludes host going refused count asked (.failed failure) after state
  | exited {asked : List (Inquiry σ)} {exit : Exit} {last after : Evaluation} {state : σ}
      (granted : ∀ inquiry ∈ asked, inquiry.granted host = true)
      (held : going (count + asked.length) state) (running : last.Running)
      (stepped : last.machine.step = (.exited exit, after.machine)) :
      Concludes host going refused count asked exit after state

section Contract

variable {going : Nat → σ → Prop} {denied : Nat → Failure → σ → Prop}
  {refused : Failure → σ → Prop} {count : Nat}

/-- Inquiries that were granted before the end come before those of the end. -/
theorem Concludes.prepend {front asked : List (Inquiry σ)} {exit : Exit} {after : Evaluation}
    (granted : ∀ inquiry ∈ front, inquiry.granted host = true)
    (concludes : Concludes host going refused (count + front.length) asked exit after state) :
    Concludes host going refused count (front ++ asked) exit after state := by
  have both {asked : List (Inquiry σ)} (others : ∀ inquiry ∈ asked, inquiry.granted host = true) :
      ∀ inquiry ∈ front ++ asked, inquiry.granted host = true := by
    intro inquiry member
    rcases List.mem_append.mp member with inFront | inAsked
    · exact granted inquiry inFront
    · exact others inquiry inAsked
  cases concludes with
  | denied others held answered =>
      rw [← List.append_assoc]
      refine .denied (both others) ?_ answered
      rw [List.length_append, ← Nat.add_assoc]
      exact held
  | refused others refuses => exact .refused (both others) refuses
  | exited others held running stepped =>
      refine .exited (both others) ?_ running stepped
      rw [List.length_append, ← Nat.add_assoc]
      exact held

/-- A run that stops was permitted all that it asked for. -/
theorem Concludes.going_of_stopped {asked : List (Inquiry σ)} {after : Evaluation}
    (concludes : Concludes host going refused count asked .stopped after state) :
    going (count + asked.length) state := by
  cases concludes with
  | exited granted held running stepped => exact held

/-- All inquiries in front of the last one were granted. -/
theorem Concludes.take_granted {asked : List (Inquiry σ)} {exit : Exit} {after : Evaluation}
    (concludes : Concludes host going refused count asked exit after state) {length : Nat}
    (inside : length < asked.length) :
    (asked.filter (Inquiry.granted host)).take length = asked.take length := by
  cases concludes with
  | denied granted held answered =>
      have within := Nat.le_of_lt_succ (List.length_append ▸ inside)
      rw [List.filter_append, List.filter_eq_self.mpr granted,
        List.take_append_of_le_length within, List.take_append_of_le_length within]
  | refused granted refuses => rw [List.filter_eq_self.mpr granted]
  | exited granted held running stepped => rw [List.filter_eq_self.mpr granted]

variable (keeps : host.Keeps evaluation.space going denied refused)
include keeps

/-- The host denies what a step asks for, or the step goes on to run the machine. -/
theorem denied_or_proceeds (running : evaluation.Running) (held : going count state) :
    (∃ inquiry failure after, evaluation.inquiry? host state = some inquiry ∧
      inquiry.answer host = (.error failure, after) ∧ going count inquiry.state) ∨
    ∃ permitted, evaluation.step host state = evaluation.proceed host permitted ∧
      (∀ inquiry ∈ (evaluation.inquiry? host state).toList, inquiry.granted host = true) ∧
      going (count + (evaluation.inquiry? host state).toList.length) permitted := by
  cases asked : evaluation.inquiry? host state with
  | none => exact Or.inr ⟨state, step_of_unasked running asked, by simp, held⟩
  | some inquiry =>
      have heldAsked : going count inquiry.state := by
        rcases Option.map_eq_some_iff.mp asked with ⟨instruction, _, rfl⟩
        exact keeps.observe _ held
      have settled := keeps.permit inquiry.instruction inquiry.stack heldAsked
      rcases answered : inquiry.answer host with ⟨failure | ⟨⟩, after⟩
      · exact Or.inl ⟨inquiry, failure, after, rfl, answered, heldAsked⟩
      · refine Or.inr ⟨after, step_of_granted running asked answered, ?_, ?_⟩
        · simpa using Inquiry.granted_of_answer answered
        · rw [Inquiry.answer] at answered
          rw [answered] at settled
          exact settled

theorem granted_of_step {after : Evaluation} {state' : σ} (running : evaluation.Running)
    (held : going count state) (stepped : evaluation.step host state = (none, after, state')) :
    (∀ inquiry ∈ (evaluation.inquiry? host state).toList, inquiry.granted host = true) ∧
      going (count + (evaluation.inquiry? host state).toList.length) state' := by
  rcases denied_or_proceeds keeps running held with
    ⟨inquiry, failure, denied, asked, answered, _⟩ | ⟨permitted, proceeds, granted, heldPermitted⟩
  · rw [step_of_denied asked answered] at stepped
    simp at stepped
  · rw [proceeds] at stepped
    rcases settles_proceed keeps running heldPermitted stepped with ⟨_, exits, _⟩ | ⟨heldAfter, _⟩
    · simp at exits
    · exact ⟨granted, heldAfter⟩

theorem concludes_of_step {after : Evaluation} {state' : σ} {exit : Exit}
    (running : evaluation.Running) (held : going count state)
    (stepped : evaluation.step host state = (some exit, after, state')) :
    Concludes host going refused count (evaluation.inquiry? host state).toList exit after
      state' := by
  rcases denied_or_proceeds keeps running held with
    ⟨inquiry, failure, denied, asked, answered, heldAsked⟩ |
      ⟨permitted, proceeds, granted, heldPermitted⟩
  · rw [step_of_denied asked answered] at stepped
    cases stepped
    rw [asked]
    rw [Option.toList_some, ← List.nil_append [inquiry]]
    exact .denied (by simp) heldAsked answered
  · rw [proceeds] at stepped
    rcases settles_proceed keeps running heldPermitted stepped with
      ⟨failure, exits, refuses⟩ | ⟨heldAfter, exits⟩
    · cases exits
      exact .refused granted refuses
    · exact .exited granted heldAfter running (exits exit rfl)

omit keeps in
/-- Every run over a host that keeps a contract comes to such an end. -/
theorem concludes_run {after : Evaluation} {state' : σ} {exit : Exit}
    (keeps : host.Keeps evaluation.space going denied refused) (running : evaluation.Running)
    (held : going count state) (ran : evaluation.run host state = (exit, after, state')) :
    Concludes host going refused count (evaluation.inquiries host state) exit after state' := by
  induction evaluation, state using run.induct host generalizing count with
  | case1 evaluation state stepped exit' =>
      rename_i ended
      rw [run_of_some ended, Prod.mk.injEq] at ran
      rcases ran with ⟨rfl, rest⟩
      rw [inquiries_of_some ended]
      exact concludes_of_step keeps running held (Prod.ext ended rest)
  | case2 evaluation state stepped continues =>
      rename_i ih
      rw [run_of_none continues] at ran
      have goesOn : evaluation.step host state = (none, stepped.2.1, stepped.2.2) :=
        Prod.ext continues rfl
      rcases granted_of_step keeps running held goesOn with ⟨granted, heldAfter⟩
      have owned : stepped.2.1.space = evaluation.space := (advances_of_step running goesOn).2.2
      rw [inquiries_of_none continues]
      exact .prepend granted
        (ih (owned ▸ keeps) (running_of_step running goesOn) heldAfter ran)

end Contract

/-- The end of a run over an executor, which has counted what it granted. -/
theorem concludes_execution [Store σ] {limit : UInt64} {store : σ} {journal : Journal}
    {after : Evaluation} {executor : Executor σ} {exit : Exit} (running : evaluation.Running)
    (ran : evaluation.run Executor.host (.start store limit journal) = (exit, after, executor)) :
    Concludes Executor.host
      (fun count executor => executor.meter.Counts limit count)
      (fun failure executor =>
        ∃ store slot value, Store.set store slot value = (.error failure, executor.store)) 0
      (evaluation.inquiries Executor.host (.start store limit journal)) exit after executor := by
  apply concludes_run (Executor.host_keeps evaluation.space limit) running _ ran
  exact Meter.counts_ofLimit limit

end Evaluation

namespace Settings

/-- What the evaluation of an entry point asks its executor to permit, in order. -/
def inquiries {σ : Type} [Store σ] (settings : Settings) (expression : Expression)
    (request : Request) (stepLimit : UInt64) (store : σ) (journal : Journal := {}) :
    List (Inquiry (Executor σ)) :=
  match settings.opening? expression request with
  | none => []
  | some evaluation => evaluation.inquiries Executor.host (Executor.start store stepLimit journal)

end Settings

end StackCert
