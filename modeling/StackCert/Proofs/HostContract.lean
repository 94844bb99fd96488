import StackCert.Proofs.Consultation

/-!
# What a host contributes to a run

`Host.Keeps` is a contract over the answers of a host. As long as the run may go
on, a property of the host's state is kept, which may depend on the number of
instructions that were permitted so far. A host that does not permit another
instruction, or does not resolve one, establishes a property of its own. A step
over such a host keeps the contract, or it ends the run in one of these ways or
with an exit of the machine itself, because the machine hands an instruction over
only with the values that the host will take from it.
-/

namespace StackCert

namespace Host

variable {σ : Type}

/-- The run may go on after an answer, or the answer is a refusal. -/
def Settles {α : Type} (going : σ → Prop) (refused : Failure → σ → Prop) :
    Except Failure α × σ → Prop
  | (.ok _, state) => going state
  | (.error failure, state) => refused failure state

/-- Every answer that a run in the given space asks for settles. -/
structure Keeps (host : Host σ) (space : Word) (going : Nat → σ → Prop)
    (denied : Nat → Failure → σ → Prop) (refused : Failure → σ → Prop) : Prop where
  observe : ∀ {count : Nat} {state : σ} (event : Event), going count state →
    going count (host.observe state event)
  permit : ∀ {count : Nat} {state : σ} (instruction : Instruction) (stack : Stack),
    going count state →
    Settles (going (count + 1)) (denied count) (host.permit state instruction stack)
  get : ∀ {count : Nat} {state : σ} (key : Word), going count state →
    Settles (going count) refused (host.get state space key)
  set : ∀ {count : Nat} {state : σ} (key value : Word), going count state →
    Settles (going count) refused (host.set state space key value)
  debug : ∀ {count : Nat} {state : σ} (style : DebugStyle) (machine : Machine),
    going count state → Settles (going count) refused (host.debug state style machine)

/-- What a host resolves or refuses to resolve settles. -/
theorem Keeps.settles {host : Host σ} {space : Word} {going : Nat → σ → Prop}
    {denied : Nat → Failure → σ → Prop} {refused : Failure → σ → Prop}
    (keeps : host.Keeps space going denied refused) {evaluation after : Evaluation} {count : Nat}
    {state state' : σ} {instruction : Instruction} {result : Except Failure Unit}
    (held : going count state)
    (resolves : evaluation.Resolves host state instruction result after state')
    (owned : evaluation.space = space) : Settles (going count) refused (result, state') := by
  subst owned
  cases resolves with
  | @read key _ _ _ _ _ _ answer =>
      have settled := keeps.get key held
      rw [answer] at settled
      exact keeps.observe _ settled
  | @unread key _ _ _ _ _ answer =>
      have settled := keeps.get key held
      rw [answer] at settled
      exact settled
  | @written key value _ _ _ _ _ _ answer =>
      have settled := keeps.set key value held
      rw [answer] at settled
      exact keeps.observe _ settled
  | @unwritten key value _ _ _ _ _ _ _ answer =>
      rw [← answer]
      exact keeps.set key value held
  | shown _ _ answer =>
      rw [← answer]
      exact keeps.debug _ _ held

end Host

namespace Evaluation

variable {σ : Type} {host : Host σ} {going : Nat → σ → Prop} {denied : Nat → Failure → σ → Prop}
  {refused : Failure → σ → Prop} {evaluation after : Evaluation} {state state' : σ} {count : Nat}
  (keeps : host.Keeps evaluation.space going denied refused)
include keeps

theorem settles_admission (held : going count state) (instruction : Instruction) :
    Host.Settles (going (count + 1)) (denied count)
      (evaluation.admission host state instruction) := by
  apply keeps.permit
  apply keeps.observe
  exact held

/-- The host permits the next instruction, if there is one, or denies it. -/
theorem settles_permit (held : going count state)
    (admitted : evaluation.permit host state = (after, state')) :
    (after = evaluation ∧ going (count + evaluation.machine.inspect?.toList.length) state') ∨
      ∃ failure, after = evaluation.exit (.failed failure) ∧ denied count failure state' ∧
        evaluation.machine.inspect? ≠ none := by
  rcases admits_or_denied_of_permit admitted with
    ⟨rfl, admits⟩ | ⟨instruction, failure, inspected, answer, rfl⟩
  · refine Or.inl ⟨rfl, ?_⟩
    cases admits with
    | unasked nothing =>
        rw [nothing]
        exact held
    | @permitted instruction _ inspected answer =>
        have settled := settles_admission keeps held instruction
        rw [answer] at settled
        rw [inspected]
        exact settled
  · have settled := settles_admission keeps held instruction
    rw [answer] at settled
    exact Or.inr ⟨failure, rfl, settled, by simp [inspected]⟩

theorem settles_proceed {exit? : Option Exit} (running : evaluation.Running)
    (held : going count state)
    (proceeded : evaluation.proceed host state = (exit?, after, state')) :
    (∃ failure, exit? = some (.failed failure) ∧ refused failure state') ∨
      (going count state' ∧
        ∀ exit, exit? = some exit → evaluation.machine.step = (.exited exit, after.machine)) := by
  unfold proceed at proceeded
  split at proceeded
  · cases proceeded
    exact Or.inr ⟨held, by simp⟩
  · rename_i machineStepped
    cases proceeded
    refine Or.inr ⟨held, ?_⟩
    rintro exit ⟨⟩
    exact machineStepped
  · rename_i machineStepped
    split at proceeded
    all_goals
      rename_i resolved
      cases proceeded
      rcases resolves_of_trapped running machineStepped resolved with
        ⟨_, _, _, _, _, _, _, resolves⟩
      have settled := keeps.settles held resolves rfl
    · exact Or.inr ⟨settled, by simp⟩
    · exact Or.inl ⟨_, rfl, settled⟩

/--
After a step the run may go on, or the host has denied or refused an instruction,
or the machine has exited by itself.
-/
theorem settles_step {exit? : Option Exit} (running : evaluation.Running)
    (held : going count state)
    (stepped : evaluation.step host state = (exit?, after, state')) :
    (∃ failure, exit? = some (.failed failure) ∧
      (denied count failure state' ∧ evaluation.machine.inspect? ≠ none ∨
        refused failure state')) ∨
      (going (count + evaluation.machine.inspect?.toList.length) state' ∧
        ∀ exit, exit? = some exit → evaluation.machine.step = (.exited exit, after.machine)) := by
  unfold step at stepped
  split at stepped
  rename_i admission
  rcases settles_permit keeps held admission with
    ⟨rfl, heldPermitted⟩ | ⟨failure, rfl, denial⟩
  · simp only [running.status] at stepped
    rcases settles_proceed keeps running heldPermitted stepped with
      ⟨failure, exits, refusal⟩ | settled
    · exact Or.inl ⟨failure, exits, Or.inr refusal⟩
    · exact Or.inr settled
  · cases stepped
    exact Or.inl ⟨failure, rfl, Or.inl denial⟩

end Evaluation

end StackCert
