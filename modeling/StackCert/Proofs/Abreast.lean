import Mathlib.Data.List.Forall2
import StackCert.Proofs.Disguise

/-!
# Runs side by side

One evaluation is run over two hosts, each with a state of its own. As long as
the hosts give the same answers, the machine goes through the same states, and a
relation between the states of the hosts that every answer keeps holds between
them at the end. `Host.KeepsPace` is the contract for this. It lets the left host
lag: for reasons of its own it may deny an instruction that the right one
permits. The left run then ends, and what it has asked for is the beginning of
what the right run asks for.
-/

namespace StackCert

variable {σ τ : Type}

/-- Two hosts are asked the same, in states that are alike. -/
structure Inquiry.Alike (alike : σ → τ → Prop) (left : Inquiry σ) (right : Inquiry τ) : Prop where
  instruction : left.instruction = right.instruction
  stack : left.stack = right.stack
  state : alike left.state right.state

namespace Host

/-- In a space the right host answers as the left one does, unless the left one lags. -/
structure KeepsPace (left : Host σ) (right : Host τ) (space : Word) (alike : σ → τ → Prop)
    (lagging : Failure → Prop) : Prop where
  observe : ∀ {state : σ} {state' : τ} (event : Event), alike state state' →
    alike (left.observe state event) (right.observe state' event)
  permit : ∀ {state : σ} {state' : τ} (instruction : Instruction) (stack : Stack),
    alike state state' →
    Agrees alike (left.permit state instruction stack) (right.permit state' instruction stack) ∨
      ∃ failure, (left.permit state instruction stack).1 = .error failure ∧ lagging failure
  get : ∀ {state : σ} {state' : τ} (key : Word), alike state state' →
    Agrees alike (left.get state space key) (right.get state' space key)
  set : ∀ {state : σ} {state' : τ} (key value : Word), alike state state' →
    Agrees alike (left.set state space key value) (right.set state' space key value)
  debug : ∀ {state : σ} {state' : τ} (style : DebugStyle) (machine : Machine),
    alike state state' →
    Agrees alike (left.debug state style machine) (right.debug state' style machine)

/-- Hosts that keep pace are shown the same machine: there is no disguise. -/
theorem KeepsPace.mirrors {left : Host σ} {right : Host τ} {space : Word} {alike : σ → τ → Prop}
    {lagging : Failure → Prop} (pace : left.KeepsPace right space alike lagging) :
    left.Mirrors right .plain space alike
      fun exit => ∃ failure, exit = .failed failure ∧ lagging failure := by
  constructor
  case observe =>
    intro state state' event same
    rw [Disguise.event_plain]
    exact pace.observe event same
  case permit =>
    intro state state' instruction stack same
    rcases pace.permit instruction stack same with agrees | ⟨failure, denied, lags⟩
    · exact Or.inl agrees
    · exact Or.inr ⟨failure, denied, failure, rfl, lags⟩
  case get => exact pace.get
  case set => exact pace.set
  case debug => exact pace.debug

end Host

namespace Evaluation

/-- The same happened to the evaluation, and the states of the hosts are alike. -/
structure Abreast {α : Type} (alike : σ → τ → Prop) (left : α × Evaluation × σ)
    (right : α × Evaluation × τ) : Prop where
  outcome : left.1 = right.1
  evaluation : left.2.1 = right.2.1
  state : alike left.2.2 right.2.2

variable {left : Host σ} {right : Host τ} {alike : σ → τ → Prop} {lagging : Failure → Prop}
  {evaluation : Evaluation} {state : σ} {state' : τ}

section Steps

variable (pace : left.KeepsPace right evaluation.space alike lagging) (same : alike state state')
include pace same

/-- Both hosts are asked the same by a step, or neither is asked anything. -/
theorem alike_inquiry? :
    List.Forall₂ (Inquiry.Alike alike) (evaluation.inquiry? left state).toList
      (evaluation.inquiry? right state').toList := by
  unfold inquiry?
  cases evaluation.machine.inspect? with
  | none => exact .nil
  | some instruction => exact .cons ⟨rfl, rfl, pace.observe _ same⟩ .nil

/-- A step is the same over both hosts, or the left one lags and its run ends. -/
theorem abreast_step (running : evaluation.Running) :
    Abreast alike (evaluation.step left state) (evaluation.step right state') ∨
      ∃ failure, (evaluation.step left state).1 = some (.failed failure) ∧ lagging failure := by
  rcases mirrored_step pace.mirrors same running (Disguise.fits_plain _ _) with
    mirrored | ⟨_, ends, failure, rfl, lags⟩
  · exact Or.inl ⟨mirrored.outcome.symm, mirrored.evaluation.symm, mirrored.state⟩
  · exact Or.inr ⟨failure, ends, lags⟩

end Steps

theorem inquiry?_isPrefix (host : Host σ) (evaluation : Evaluation) (state : σ) :
    (evaluation.inquiry? host state).toList <+: evaluation.inquiries host state := by
  cases ended : (evaluation.step host state).1 with
  | none =>
      rw [inquiries_of_none ended]
      exact List.prefix_append _ _
  | some exit =>
      exact (inquiries_of_some ended).symm ▸ List.prefix_refl _

/--
A run over the left host asks for what the run over the right one asks for, as far
as it goes. It ends as that one does, or because the left host lags.
-/
theorem abreast_run (pace : left.KeepsPace right evaluation.space alike lagging)
    (same : alike state state') (running : evaluation.Running) :
    (∃ front, front <+: evaluation.inquiries right state' ∧
      List.Forall₂ (Inquiry.Alike alike) (evaluation.inquiries left state) front) ∧
    (Abreast alike (evaluation.run left state) (evaluation.run right state') ∨
      ∃ failure, (evaluation.run left state).1 = .failed failure ∧ lagging failure) := by
  induction evaluation, state using run.induct left generalizing state' with
  | case1 evaluation state stepped exit =>
      rename_i ended
      rw [inquiries_of_some ended, run_of_some ended]
      refine ⟨⟨_, inquiry?_isPrefix right evaluation state', alike_inquiry? pace same⟩, ?_⟩
      rcases abreast_step pace same running with
        ⟨sameExit, sameAfter, sameNext⟩ | ⟨failure, fails, lags⟩
      · rw [run_of_some (sameExit.symm.trans ended)]
        exact Or.inl ⟨rfl, sameAfter, sameNext⟩
      · -- The right run may go on from here; only its beginning is compared.
        cases ended.symm.trans fails
        exact Or.inr ⟨failure, rfl, lags⟩
  | case2 evaluation state stepped continues =>
      rename_i ih
      have goesOn : evaluation.step left state = (none, stepped.2.1, stepped.2.2) :=
        Prod.ext continues rfl
      rcases abreast_step pace same running with
        ⟨sameExit, sameAfter, sameNext⟩ | ⟨failure, fails, _⟩
      · have rightContinues : (evaluation.step right state').1 = none :=
          sameExit.symm.trans continues
        have owned : stepped.2.1.space = evaluation.space := (advances_of_step running goesOn).2.2
        rcases ih (owned ▸ pace) sameNext (running_of_step running goesOn) with
          ⟨⟨front, starts, alikeFront⟩, ends⟩
        rw [run_of_none continues, run_of_none rightContinues, inquiries_of_none continues,
          inquiries_of_none rightContinues, ← sameAfter]
        refine ⟨⟨_, (List.prefix_append_right_inj _).mpr starts, ?_⟩, ends⟩
        exact List.rel_append (alike_inquiry? pace same) alikeFront
      · cases continues.symm.trans fails

end Evaluation

end StackCert
