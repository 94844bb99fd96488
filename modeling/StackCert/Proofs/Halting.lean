import StackCert.Evaluation

/-!
# Runs step by step

A run is a repetition of steps. Here the repetition is written out, for machines
and for evaluations, and goes on whatever a step returns. It comes to a step that
ends the run after no more steps than the instructions of the unfolded entry
source allow: two for each of them, since an instruction may open a frame that has
to be left, and one for the entry itself. Only the code bears on that number. It
does not matter whether the code was certified, what its context and its stack
are, or what the host answers.

What the steps keep that go on still holds at the moment before that step
(`Evaluation.exists_last_moment`), so that the end of a run is a matter of one step.
-/

namespace StackCert

namespace Machine

/-- The machine after a number of steps, whatever they returned. -/
def after (machine : Machine) : Nat → Machine
  | 0 => machine
  | steps + 1 => (machine.after steps).step.2

theorem after_succ (machine : Machine) (steps : Nat) :
    machine.after (steps + 1) = machine.step.2.after steps := by
  induction steps with
  | zero => rfl
  | succ steps ih => rw [after, ih, after]

/-- Some step does not go on, within the bound, and it is the one that a run returns. -/
theorem exists_last_step (machine : Machine) :
    ∃ count ≤ machine.remaining,
      (∀ earlier < count, (machine.after earlier).step.1 = .continued) ∧
      (machine.after count).step.1 ≠ .continued ∧
      machine.run = (machine.after count).step := by
  induction machine using run.induct with
  | case1 machine stepped continued ih =>
      rcases ih with ⟨count, within, before, last, ran⟩
      have lowered := remaining_step_lt_of_continued continued
      refine ⟨count + 1, Nat.lt_of_le_of_lt within lowered, ?_, ?_, ?_⟩
      · intro earlier isEarlier
        cases earlier with
        | zero => exact continued
        | succ earlier =>
            rw [after_succ]
            exact before earlier (Nat.lt_of_succ_lt_succ isEarlier)
      · rw [after_succ]
        exact last
      · rw [run_of_continued continued, after_succ]
        exact ran
  | case2 machine stepped ended =>
      refine ⟨0, Nat.zero_le _, ?_, ended, run_of_not_continued ended⟩
      intro earlier isEarlier
      exact absurd isEarlier (Nat.not_lt_zero earlier)

end Machine

namespace Evaluation

variable {σ : Type} {host : Host σ} {evaluation : Evaluation} {state : σ}

/-- An evaluation and the state of its host after a number of steps, whatever they returned. -/
def after (host : Host σ) (evaluation : Evaluation) (state : σ) : Nat → Evaluation × σ
  | 0 => (evaluation, state)
  | steps + 1 =>
      let before := evaluation.after host state steps
      (before.1.step host before.2).2

/-- What the step behind a number of others returns and leaves. -/
def stepAfter (host : Host σ) (evaluation : Evaluation) (state : σ) (steps : Nat) :
    Option Exit × Evaluation × σ :=
  let before := evaluation.after host state steps
  before.1.step host before.2

theorem after_succ (host : Host σ) (evaluation : Evaluation) (state : σ) (steps : Nat) :
    evaluation.after host state (steps + 1) =
      (evaluation.step host state).2.1.after host (evaluation.step host state).2.2 steps := by
  induction steps with
  | zero => rfl
  | succ steps ih => rw [after, ih, after]

theorem stepAfter_succ (host : Host σ) (evaluation : Evaluation) (state : σ) (steps : Nat) :
    evaluation.stepAfter host state (steps + 1) =
      (evaluation.step host state).2.1.stepAfter host (evaluation.step host state).2.2 steps := by
  rw [stepAfter, after_succ, stepAfter]

/-- Some step returns an exit, within the bound, and it is the one that a run returns. -/
theorem exists_last_step (host : Host σ) (evaluation : Evaluation) (state : σ) :
    ∃ count ≤ evaluation.machine.remaining, ∃ exit,
      (∀ earlier < count, (evaluation.stepAfter host state earlier).1 = none) ∧
      (evaluation.stepAfter host state count).1 = some exit ∧
      evaluation.run host state = (exit, (evaluation.stepAfter host state count).2) := by
  induction evaluation, state using run.induct host with
  | case1 evaluation state stepped exit ended =>
      refine ⟨0, Nat.zero_le _, exit, ?_, ended, run_of_some ended⟩
      intro earlier isEarlier
      exact absurd isEarlier (Nat.not_lt_zero earlier)
  | case2 evaluation state stepped goesOn ih =>
      rcases ih with ⟨count, within, exit, before, last, ran⟩
      have lowered := remaining_step_lt_of_none goesOn
      refine ⟨count + 1, Nat.lt_of_le_of_lt within lowered, exit, ?_, ?_, ?_⟩
      · intro earlier isEarlier
        cases earlier with
        | zero => exact goesOn
        | succ earlier =>
            rw [stepAfter_succ]
            exact before earlier (Nat.lt_of_succ_lt_succ isEarlier)
      · rw [stepAfter_succ]
        exact last
      · rw [run_of_none goesOn, stepAfter_succ]
        exact ran

/-- What every step keeps that goes on holds as long as the run goes on. -/
theorem kept_after (kept : Evaluation → σ → Prop)
    (keeps : ∀ {evaluation after : Evaluation} {state state' : σ}, kept evaluation state →
      evaluation.step host state = (none, after, state') → kept after state')
    (started : kept evaluation state) {steps : Nat}
    (goesOn : ∀ earlier < steps, (evaluation.stepAfter host state earlier).1 = none) :
    kept (evaluation.after host state steps).1 (evaluation.after host state steps).2 := by
  induction steps with
  | zero => exact started
  | succ steps ih =>
      have before := ih fun earlier isEarlier => goesOn earlier (Nat.lt_succ_of_lt isEarlier)
      exact keeps before (Prod.ext (goesOn steps (Nat.lt_succ_self steps)) rfl)

/-- A run comes to a moment at which all that is kept still holds and the next step ends it. -/
theorem exists_last_moment (kept : Evaluation → σ → Prop)
    (keeps : ∀ {evaluation after : Evaluation} {state state' : σ}, kept evaluation state →
      evaluation.step host state = (none, after, state') → kept after state')
    (started : kept evaluation state) :
    ∃ steps, (∀ earlier < steps, (evaluation.stepAfter host state earlier).1 = none) ∧
      kept (evaluation.after host state steps).1 (evaluation.after host state steps).2 ∧
      evaluation.stepAfter host state steps =
        (some (evaluation.run host state).1, (evaluation.run host state).2) := by
  rcases exists_last_step host evaluation state with ⟨steps, _, exit, goesOn, last, ran⟩
  refine ⟨steps, goesOn, kept_after kept keeps started goesOn, ?_⟩
  rw [ran]
  exact Prod.ext last rfl

end Evaluation

end StackCert
