import StackCert.Proofs.Disguise

/-!
# Room on the stack

A machine looks at the limit of its stack in one place only: when it pushes a
value and there is no room. So a machine with a higher limit takes the same steps
until the other one overflows (`Machine.fits_roomier`). With a host that does not
look at the limit either, the same holds of whole runs.
-/

namespace StackCert

namespace Stack

variable (stack : Stack) (slack : Nat)

/-- The stack with room for more values. -/
def roomier : Stack where
  words := stack.words
  limit := stack.limit + slack
  size_le_limit := Nat.le_add_right_of_le stack.size_le_limit

theorem pop_roomier :
    (stack.roomier slack).pop = stack.pop.map fun popped => (popped.1, popped.2.roomier slack) := by
  simp only [pop, roomier]
  cases stack.words.back? <;> rfl

theorem push_roomier {stack : Stack} (room : stack.size < stack.limit) (word : Word) :
    (stack.roomier slack).push word = (stack.push word).map (roomier · slack) := by
  cases pushed : stack.push word with
  | ok after =>
      rcases push_eq_ok_iff.mp pushed with ⟨_, words, limit⟩
      apply push_eq_ok_iff.mpr
      refine ⟨Nat.lt_add_right slack room, words, ?_⟩
      simp only [roomier, limit]
  | error failure =>
      have full := (push_eq_error_iff.mp pushed).1
      omega

/-- More room makes a difference to a value only if there was none left. -/
theorem push_roomier_or (word : Word) :
    stack.push word = .error .stackOverflow ∨
      (stack.roomier slack).push word = (stack.push word).map (roomier · slack) := by
  by_cases room : stack.size < stack.limit
  · exact Or.inr (push_roomier slack room word)
  · left
    apply push_eq_error_iff.mpr
    exact ⟨Nat.le_antisymm (Nat.not_lt.mp room) stack.size_le_limit, rfl⟩

theorem discard_roomier (count : Nat) :
    (stack.roomier slack).discard count = (stack.discard count).map (roomier · slack) := by
  by_cases enough : count ≤ stack.words.size
  · simp only [discard, roomier, enough, ↓reduceIte, Except.map]
  · simp only [discard, roomier, enough, ↓reduceIte, Except.map]

theorem reduce_roomier_or (count : Nat) (combine : List Word → Except Failure Word) :
    stack.reduce count combine = .error .stackOverflow ∨
      (stack.roomier slack).reduce count combine =
        (stack.reduce count combine).map (roomier · slack) := by
  have sameTop : (stack.roomier slack).top count = stack.top count := rfl
  simp only [reduce, sameTop, discard_roomier]
  cases stack.top count with
  | error failure => exact Or.inr rfl
  | ok words =>
      cases combined : combine words with
      | error failure => exact Or.inr (by simp [bind, Except.bind, combined, Except.map])
      | ok result =>
          cases stack.discard count with
          | error failure => exact Or.inr (by simp [bind, Except.bind, combined, Except.map])
          | ok below =>
              simp only [bind, Except.bind, combined, Except.map]
              exact below.push_roomier_or slack result

end Stack

/-- What an operation asks for, with more room on the stack. -/
def Control.roomier (slack : Nat) : Control → Control
  | .next stack => .next (stack.roomier slack)
  | .call callee => .call callee
  | .trap => .trap
  | .halt stack failure => .halt (stack.roomier slack) failure

/-- An operation found no room for a value. -/
def Control.Overflows (control : Control) : Prop :=
  ∃ stack, control = .halt stack .stackOverflow

/-- More room on the stack, as a disguise. -/
def Disguise.roomier (slack : Nat) : Disguise where
  machine machine := { machine with stack := machine.stack.roomier slack }
  stack stack := stack.roomier slack
  withStack _ _ := rfl
  exit _ _ := rfl
  status _ := rfl
  framed _ framed := framed
  pop stack _ := stack.pop_roomier slack
  push _ word room := Stack.push_roomier slack room word

namespace Machine

variable {machine : Machine} (slack : Nat)

theorem pushing_roomier (stack : Stack) (value : Except Failure Word) :
    (pushing stack value).Overflows ∨
      pushing (stack.roomier slack) value = (pushing stack value).roomier slack := by
  cases value with
  | error failure => exact Or.inr rfl
  | ok word =>
      simp only [pushing]
      rcases stack.push_roomier_or slack word with full | pushed
      · rw [full]
        exact Or.inl ⟨stack, rfl⟩
      · rw [pushed]
        right
        cases stack.push word <;> rfl

theorem require_roomier (stack : Stack) (code : UInt8) :
    require (stack.roomier slack) code = (require stack code).roomier slack := by
  simp only [require, Stack.pop_roomier]
  cases stack.pop with
  | error failure => rfl
  | ok popped =>
      simp only [Except.map]
      split <;> rfl

theorem reducing_roomier (layout : Layout) (stack : Stack) (reducer : Reducer) (operand : UInt8) :
    (reducing layout stack reducer operand).Overflows ∨
      reducing layout (stack.roomier slack) reducer operand =
        (reducing layout stack reducer operand).roomier slack := by
  cases counted : reducer.arity operand with
  | error failure =>
      right
      simp [reducing, counted, bind, Except.bind, Control.roomier]
  | ok arity =>
      simp only [reducing, counted, bind, Except.bind]
      rcases stack.reduce_roomier_or slack arity (reducer.combine layout operand) with
        full | reduced
      · rw [full]
        exact Or.inl ⟨stack, rfl⟩
      · rw [reduced]
        right
        cases stack.reduce arity (reducer.combine layout operand) <;> rfl

/-- An operation overflows, or it does the same with more room. -/
theorem perform_roomier (frame : Frame) (operation : Operation) (operand : UInt8) :
    (machine.perform frame operation operand).Overflows ∨
      ((Disguise.roomier slack).machine machine).perform frame operation operand =
        (machine.perform frame operation operand).roomier slack := by
  cases operation with
  | constant => exact pushing_roomier slack machine.stack _
  | stack => exact pushing_roomier slack machine.stack _
  | context => exact pushing_roomier slack machine.stack _
  | call =>
      right
      have sameSize : (machine.stack.roomier slack).size = machine.stack.size := rfl
      simp only [perform, enter, Disguise.roomier, sameSize]
      split_ifs <;> rfl
  | debug | get | set => exact Or.inr rfl
  | ensure => exact Or.inr (require_roomier slack machine.stack operand)
  | reduce reducer => exact reducing_roomier slack machine.layout machine.stack reducer operand

theorem execute_roomier (frame : Frame) (callers : List Frame) (instruction : Instruction) :
    (machine.execute frame callers instruction).1 = .exited (.failed .stackOverflow) ∨
      ((Disguise.roomier slack).machine machine).execute frame callers instruction =
        ((machine.execute frame callers instruction).1,
          (Disguise.roomier slack).machine (machine.execute frame callers instruction).2) := by
  have sameSize : ((Disguise.roomier slack).machine machine).stack.size = machine.stack.size := rfl
  unfold execute
  rw [sameSize]
  split
  · exact Or.inr rfl
  · split
    · exact Or.inr rfl
    · split
      · exact Or.inr rfl
      · rename_i operation _ _ _ _ _
        rcases perform_roomier slack frame operation instruction.operand with
          ⟨stack, overflows⟩ | performed
        · rw [overflows]
          exact Or.inl rfl
        · rw [performed]
          right
          cases machine.perform frame operation instruction.operand <;> rfl

theorem leave_roomier (frame : Frame) (callers : List Frame) :
    ((Disguise.roomier slack).machine machine).leave frame callers =
      ((machine.leave frame callers).1,
        (Disguise.roomier slack).machine (machine.leave frame callers).2) := by
  have sameSize : ((Disguise.roomier slack).machine machine).stack.size = machine.stack.size := rfl
  unfold leave
  rw [sameSize]
  split
  · cases callers <;> rfl
  · rfl

/-- A machine steps in the same way with more room, unless it overflows. -/
theorem fits_roomier (running : machine.status = none) (framed : machine.frames ≠ []) :
    (Disguise.roomier slack).Fits (· = .failed .stackOverflow) machine := by
  refine ⟨rfl, ?_⟩
  rcases List.exists_cons_of_ne_nil framed with ⟨frame, callers, frames⟩
  have roomierFrames : ((Disguise.roomier slack).machine machine).frames = frame :: callers :=
    frames
  have roomierRunning : ((Disguise.roomier slack).machine machine).status = none := running
  have sameProgram : ((Disguise.roomier slack).machine machine).program = machine.program := rfl
  simp only [step, running, frames, roomierRunning, roomierFrames, sameProgram]
  split
  · exact Or.inr rfl
  · split
    · rename_i instruction _
      rcases execute_roomier slack frame callers instruction with overflows | executed
      · exact Or.inl ⟨_, overflows, rfl⟩
      · exact Or.inr executed
    · right
      split
      · exact leave_roomier slack frame callers
      · rfl

end Machine

/-- The limit of the stack makes no difference to what the host answers. -/
def Host.OverlooksRoom {σ : Type} (host : Host σ) (space : Word) (alike : σ → σ → Prop) : Prop :=
  ∀ slack, host.Mirrors host (.roomier slack) space alike fun _ => False

/-- A run overflows, or it is the same with more room. -/
theorem Evaluation.mirrored_roomier {σ : Type} {host : Host σ} {alike : σ → σ → Prop}
    {evaluation : Evaluation} {state state' : σ}
    (overlooks : host.OverlooksRoom evaluation.space alike) (same : alike state state')
    (running : evaluation.Running) (slack : Nat) :
    Mirrored (.roomier slack) alike (evaluation.run host state)
        ((evaluation.disguised (.roomier slack)).run host state') ∨
      (evaluation.run host state).1 = .failed .stackOverflow := by
  have mirrors : host.Mirrors host (.roomier slack) evaluation.space alike
      (· = .failed .stackOverflow) :=
    (overlooks slack).spare
  apply mirrored_run mirrors same running fun _ => True
  · intros
    trivial
  · intro machine _ status framed
    exact Machine.fits_roomier slack status framed
  · trivial

end StackCert
