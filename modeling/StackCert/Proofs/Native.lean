import StackCert.Proofs.Exchange
import StackCert.Proofs.Reduction

/-!
# Failures of the machine itself

A machine fails when an instruction cannot be run, and it gives a reason that
lies in the instruction, in its values or in the program. It never says that a
resource is exhausted, nor does it give a reason in words: these two are left to
the host. `Native` states this of a result, and it passes through everything
that a step does, for programs that were never certified as well.
-/

namespace StackCert

/-- Whether the failure can be the machine's own; the others are reasons of a host. -/
def Failure.native : Failure → Bool
  | .resourceExhausted | .other _ => false
  | _ => true

/-- A result that, if it is a failure, is one of the machine's own. -/
def Native {α : Type} (result : Except Failure α) : Prop :=
  ∀ failure, result = .error failure → failure.native = true

namespace Native

variable {α β : Type}

theorem ok (value : α) : Native (.ok value) := by
  intro failure failed
  simp at failed

theorem error {failure : Failure} (native : failure.native = true) :
    Native (.error failure : Except Failure α) := by
  rintro _ ⟨⟩
  exact native

theorem bind {result : Except Failure α} {next : α → Except Failure β} (first : Native result)
    (second : ∀ value, Native (next value)) : Native (result >>= next) := by
  cases result with
  | ok value => exact second value
  | error failure => exact .error (first failure rfl)

theorem map {result : Except Failure α} (native : Native result) (f : α → β) :
    Native (result.map f) := by
  cases result with
  | ok value => exact .ok _
  | error failure => exact .error (native failure rfl)

end Native

namespace Stack

theorem native_push (stack : Stack) (word : Word) : Native (stack.push word) := by
  intro failure failed
  rw [(push_eq_error_iff.mp failed).2]
  rfl

theorem native_pop (stack : Stack) : Native stack.pop := by
  intro failure failed
  rw [(pop_eq_error_iff.mp failed).2]
  rfl

theorem native_get (stack : Stack) (index : Nat) : Native (stack.get index) := by
  unfold get
  split
  · exact .ok _
  · exact .error rfl

theorem native_reduce {combine : List Word → Except Failure Word}
    (native : ∀ words, Native (combine words)) (stack : Stack) (count : Nat) :
    Native (stack.reduce count combine) := by
  have topNative : Native (stack.top count) := by
    unfold top
    split
    · exact .ok _
    · exact .error rfl
  have discardNative : Native (stack.discard count) := by
    unfold discard
    split
    · exact .ok _
    · exact .error rfl
  refine topNative.bind fun words => (native words).bind fun result => ?_
  exact discardNative.bind fun below => below.native_push result

end Stack

namespace Reducer

theorem native_arity (reducer : Reducer) (operand : UInt8) : Native (reducer.arity operand) := by
  cases reducer with
  | isZero | equalTo | lessThan | greaterThan | saturatingDiff | eagerIf => exact .ok _
  | _ =>
      simp only [arity]
      split
      · exact .error rfl
      · exact .ok _

theorem native_valueOr {failure : Failure} (native : failure.native = true) (value? : Option Word) :
    Native (valueOr failure value?) := by
  cases value? with
  | none => exact .error native
  | some word => exact .ok word

theorem native_fold {step : Word → Word → Except Failure Word}
    (native : ∀ left right, Native (step left right)) (words : List Word) :
    Native (fold step words) := by
  cases words with
  | nil => exact .error rfl
  | cons word words =>
      intro failure failed
      rcases step_of_fold (List.cons_ne_nil word words) failed with ⟨left, right, stepFailed⟩
      exact native left right failure stepFailed

theorem native_combine (layout : Layout) (operand : UInt8) (reducer : Reducer)
    (words : List Word) : Native (reducer.combine layout operand words) := by
  cases reducer with
  | add | sub | mul | div | mod | exp =>
      exact native_fold (fun left right => native_valueOr rfl _) words
  | min | max | saturatingAdd | saturatingSub | saturatingMul =>
      exact native_fold (fun left right => .ok _) words
  | hash | any => exact .ok _
  | every =>
      simp only [combine, allOf]
      split
      · exact .ok _
      · exact native_valueOr rfl _
  | selectLte =>
      simp only [combine, select]
      split
      · exact native_valueOr rfl _
      · exact .error rfl
  | isZero =>
      rcases words with _ | ⟨_, _ | _⟩
      · exact .error rfl
      · exact .ok _
      · exact .error rfl
  | equalTo | lessThan | greaterThan =>
      rcases words with _ | ⟨_, _ | ⟨_, _ | _⟩⟩
      · exact .error rfl
      · exact .error rfl
      · exact .ok _
      · exact .error rfl
  | eagerIf =>
      rcases words with _ | ⟨_, _ | ⟨_, _ | ⟨_, _ | _⟩⟩⟩
      · exact .error rfl
      · exact .error rfl
      · exact .error rfl
      · exact .ok _
      · exact .error rfl
  | saturatingDiff | updateTimes =>
      rcases words with _ | ⟨_, _ | ⟨_, _ | _⟩⟩
      · exact .error rfl
      · exact .error rfl
      · exact native_valueOr rfl _
      · exact .error rfl

end Reducer

theorem Operation.native_effect (operation : Operation) (operand : UInt8) :
    Native (operation.effect operand) := by
  cases operation with
  | debug =>
      simp only [effect]
      split
      · exact .error rfl
      · exact .ok _
  | reduce reducer => exact (reducer.native_arity operand).map _
  | _ => exact .ok _

theorem Instruction.native_operation (instruction : Instruction) :
    Native instruction.operation := by
  unfold operation
  split
  · exact .ok _
  · exact .error rfl

namespace Machine

theorem native_of_pushing {stack after : Stack} {value : Except Failure Word} {failure : Failure}
    (native : Native value) (halted : pushing stack value = .halt after failure) :
    failure.native = true := by
  unfold pushing at halted
  split at halted
  · cases halted
    exact native failure rfl
  · split at halted
    · rename_i pushed
      cases halted
      exact stack.native_push _ failure pushed
    · simp at halted

theorem native_of_perform {machine : Machine} {frame : Frame} {operation : Operation}
    {operand : UInt8} {after : Stack} {failure : Failure}
    (halted : machine.perform frame operation operand = .halt after failure) :
    failure.native = true := by
  cases operation with
  | constant =>
      refine native_of_pushing ?_ halted
      unfold Program.constant
      split
      · exact .ok _
      · exact .error rfl
  | stack => exact native_of_pushing (machine.stack.native_get _) halted
  | context =>
      refine native_of_pushing ?_ halted
      unfold Context.cell
      split
      · exact .ok _
      · exact .error rfl
  | call =>
      simp only [perform, enter] at halted
      split at halted
      · split at halted
        · simp at halted
        · cases halted
          rfl
      · cases halted
        rfl
  | debug | get | set => simp [perform] at halted
  | ensure =>
      simp only [perform, require] at halted
      split at halted
      · rename_i popped
        cases halted
        exact machine.stack.native_pop failure popped
      · split at halted
        · cases halted
          rfl
        · simp at halted
  | reduce reducer =>
      simp only [perform, reducing] at halted
      split at halted
      · rename_i reduced
        cases halted
        refine Native.bind (reducer.native_arity operand) ?_ failure reduced
        intro arity
        exact Stack.native_reduce (reducer.native_combine machine.layout operand) _ arity
      · simp at halted

theorem native_of_execute {machine after : Machine} {frame : Frame} {callers : List Frame}
    {instruction : Instruction} {failure : Failure}
    (executed : machine.execute frame callers instruction = (.exited (.failed failure), after)) :
    failure.native = true := by
  unfold execute at executed
  split at executed
  · rename_i unassigned
    cases executed
    exact instruction.native_operation failure unassigned
  · rename_i operation assigned
    split at executed
    · rename_i undescribed
      cases executed
      exact operation.native_effect instruction.operand failure undescribed
    · split at executed
      · cases executed
        rfl
      · cases control : machine.perform frame operation instruction.operand with
        | next | call | trap => simp [control, follow] at executed
        | halt stack other =>
            rw [control] at executed
            cases executed
            exact native_of_perform control

/-- A running machine that fails does so for a reason of its own. -/
theorem native_of_step {machine after : Machine} {failure : Failure}
    (running : machine.status = none)
    (stepped : machine.step = (.exited (.failed failure), after)) : failure.native = true := by
  unfold step at stepped
  rw [running] at stepped
  simp only at stepped
  split at stepped
  · simp [finish] at stepped
  · split at stepped
    · cases stepped
      rfl
    · split at stepped
      · exact native_of_execute stepped
      · split at stepped
        · unfold leave at stepped
          split at stepped
          · split at stepped <;> simp [finish] at stepped
          · cases stepped
            rfl
        · cases stepped
          rfl

end Machine

end StackCert
