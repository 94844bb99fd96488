import StackCert.Proofs.FrameOrder

/-!
# A callee runs as if it were alone

Callers leave their values on the stack below those of the frames they open.
`Machine.raised` puts words and frames under a machine and moves the bases of its
own frames up by the height of those words. Stepping and raising commute: every
test that the machine makes is about the innermost frame's own values, about the
room that is left, or about the program, and none of these is changed by raising.
They differ only when the machine alone would stop, where the raised one goes on
in its caller.
-/

namespace StackCert

namespace Stack

variable {stack : Stack} (below : List Word)

/-- The stack on top of other words, with its limit raised as much. -/
def above (stack : Stack) (below : List Word) : Stack where
  words := below.toArray ++ stack.words
  limit := below.length + stack.limit
  size_le_limit := by
    rw [Array.size_append, List.size_toArray]
    exact Nat.add_le_add_left stack.size_le_limit _

@[simp]
theorem toList_above : (stack.above below).toList = below ++ stack.toList := by
  simp [above, toList]

@[simp]
theorem size_above : (stack.above below).size = below.length + stack.size := by
  simp [above, size]

@[simp]
theorem limit_above : (stack.above below).limit = below.length + stack.limit := rfl

theorem push_above (word : Word) :
    (stack.above below).push word = (stack.push word).map (above · below) := by
  cases pushed : stack.push word with
  | ok after =>
      rcases push_eq_ok_iff.mp pushed with ⟨room, words, limit⟩
      apply push_eq_ok_iff.mpr
      simp [room, words, limit]
  | error failure =>
      rcases push_eq_error_iff.mp pushed with ⟨full, rfl⟩
      apply push_eq_error_iff.mpr
      simp [full]

theorem pop_above (nonempty : 1 ≤ stack.size) :
    (stack.above below).pop = stack.pop.map fun popped => (popped.1, popped.2.above below) := by
  cases popped : stack.pop with
  | ok taken =>
      rcases pop_eq_ok_iff.mp popped with ⟨words, limit⟩
      apply pop_eq_ok_iff.mpr
      simp [words, limit]
  | error failure =>
      have empty := (pop_eq_error_iff.mp popped).1
      omega

theorem get_above (index : Nat) :
    (stack.above below).get (below.length + index) = stack.get index := by
  have found : (stack.above below).words[below.length + index]? = stack.words[index]? := by
    rw [above, Array.getElem?_append_right (by simp), List.size_toArray, Nat.add_sub_cancel_left]
  simp only [get, found]

theorem top_above {count : Nat} (enough : count ≤ stack.size) :
    (stack.above below).top count = stack.top count := by
  rw [top_eq_ok_iff.mpr ⟨enough, rfl⟩]
  apply top_eq_ok_iff.mpr
  simp only [size_above, toList_above]
  refine ⟨by omega, ?_⟩
  rw [Nat.add_sub_assoc enough, List.drop_length_add_append]

theorem discard_above {count : Nat} (enough : count ≤ stack.size) :
    (stack.above below).discard count = (stack.discard count).map (above · below) := by
  cases discarded : stack.discard count with
  | ok after =>
      rcases discard_eq_ok_iff.mp discarded with ⟨_, words, limit⟩
      apply discard_eq_ok_iff.mpr
      simp only [size_above, toList_above, limit_above, words, limit, and_true]
      refine ⟨by omega, ?_⟩
      rw [Nat.add_sub_assoc enough, List.take_length_add_append]
  | error failure =>
      simp [discard, show count ≤ stack.words.size from enough] at discarded

theorem reduce_above {count : Nat} (enough : count ≤ stack.size)
    (combine : List Word → Except Failure Word) :
    (stack.above below).reduce count combine =
      (stack.reduce count combine).map (above · below) := by
  simp only [reduce, top_above below enough, discard_above below enough]
  cases stack.top count with
  | error failure => rfl
  | ok words =>
      cases combined : combine words with
      | error failure => simp [bind, Except.bind, combined, Except.map]
      | ok result =>
          cases stack.discard count with
          | error failure => simp [bind, Except.bind, combined, Except.map]
          | ok rest => simp [bind, Except.bind, combined, Except.map, push_above]

end Stack

/-- The frame with its values starting higher up. -/
def Frame.raised (height : Nat) (frame : Frame) : Frame :=
  { frame with base := height + frame.base }

/-- What an operation asks for, on top of other words. -/
def Control.raised (below : List Word) : Control → Control
  | .next stack => .next (stack.above below)
  | .call callee => .call (callee.raised below.length)
  | .trap => .trap
  | .halt stack failure => .halt (stack.above below) failure

namespace Machine

/-- The machine on top of other words and frames. -/
def raised (machine : Machine) (below : List Word) (callers : List Frame) : Machine :=
  { machine with
    frames := machine.frames.map (Frame.raised below.length) ++ callers
    stack := machine.stack.above below }

variable {machine : Machine} {stack : Stack} {frame : Frame} (below : List Word)

theorem height_raised (callers : List Frame) :
    (machine.raised below callers).stack.size - (frame.raised below.length).base =
      machine.stack.size - frame.base := by
  simp only [raised, Frame.raised, Stack.size_above, Nat.add_sub_add_left]

theorem frames_raised (callers : List Frame) {inner : List Frame}
    (frames : machine.frames = frame :: inner) :
    (machine.raised below callers).frames =
      frame.raised below.length :: (inner.map (Frame.raised below.length) ++ callers) := by
  simp only [raised, frames, List.map_cons, List.cons_append]

theorem pushing_above (value : Except Failure Word) :
    pushing (stack.above below) value = (pushing stack value).raised below := by
  cases value with
  | error failure => rfl
  | ok word =>
      simp only [pushing, Stack.push_above]
      cases stack.push word <;> rfl

theorem require_above (nonempty : 1 ≤ stack.size) (code : UInt8) :
    require (stack.above below) code = (require stack code).raised below := by
  simp only [require, Stack.pop_above below nonempty]
  cases stack.pop with
  | error failure => rfl
  | ok popped =>
      simp only [Except.map]
      split <;> rfl

theorem reducing_above {layout : Layout} {reducer : Reducer} {operand : UInt8} {arity : Nat}
    (counted : reducer.arity operand = .ok arity) (enough : arity ≤ stack.size) :
    reducing layout (stack.above below) reducer operand =
      (reducing layout stack reducer operand).raised below := by
  simp only [reducing, counted, bind, Except.bind, Stack.reduce_above below enough]
  cases stack.reduce arity (reducer.combine layout operand) <;> rfl

theorem enter_raised (callers : List Frame) {call : CallOperand}
    (enough : call.inputs ≤ machine.stack.size) :
    (machine.raised below callers).enter (frame.raised below.length) call =
      (machine.enter frame call).raised below := by
  have raisedEnough : call.inputs ≤ below.length + machine.stack.size := by omega
  simp only [enter, raised, Frame.raised, Stack.size_above, enough, raisedEnough, ↓reduceIte]
  split
  · simp only [Control.raised, Frame.raised, Nat.add_sub_assoc enough]
  · rfl

/-- An operation that finds its values in its own frame does not notice what lies below. -/
theorem perform_raised (callers : List Frame) {operation : Operation} {operand : UInt8}
    {effect : Effect} (described : operation.effect operand = .ok effect)
    (enough : effect.pops ≤ machine.stack.size) :
    (machine.raised below callers).perform (frame.raised below.length) operation operand =
      (machine.perform frame operation operand).raised below := by
  cases operation with
  | constant => exact pushing_above below _
  | stack =>
      simp only [perform, raised, Frame.raised, Nat.add_assoc, Stack.get_above]
      exact pushing_above below _
  | context => exact pushing_above below _
  | call =>
      cases described
      exact enter_raised below callers enough
  | debug | get | set => rfl
  | ensure =>
      cases described
      exact require_above below enough operand
  | reduce reducer =>
      cases counted : reducer.arity operand with
      | error failure => simp [Operation.effect, counted, Except.map] at described
      | ok arity =>
          simp only [Operation.effect, counted, Except.map, Except.ok.injEq] at described
          subst described
          exact reducing_above below counted enough

theorem inspect?_raised (callers : List Frame) (framed : machine.frames ≠ []) :
    (machine.raised below callers).inspect? = machine.inspect? := by
  rcases List.exists_cons_of_ne_nil framed with ⟨frame, inner, frames⟩
  simp only [inspect?, frames_raised below callers frames, frames]
  cases running : machine.status <;> simp only [raised, running, Frame.raised]

theorem follow_raised (inner callers : List Frame) (instruction : Instruction)
    (control : Control) :
    (machine.raised below callers).follow (frame.raised below.length)
        (inner.map (Frame.raised below.length) ++ callers) instruction (control.raised below) =
      ((machine.follow frame inner instruction control).1,
        (machine.follow frame inner instruction control).2.raised below callers) := by
  cases control <;> rfl

theorem execute_raised (inner callers : List Frame) (instruction : Instruction) :
    (machine.raised below callers).execute (frame.raised below.length)
        (inner.map (Frame.raised below.length) ++ callers) instruction =
      ((machine.execute frame inner instruction).1,
        (machine.execute frame inner instruction).2.raised below callers) := by
  unfold execute
  rw [height_raised]
  split
  · rfl
  · split
    · rfl
    · rename_i operation _ effect described
      split
      · rfl
      · rename_i notFewer
        have enough : effect.pops ≤ machine.stack.size := by omega
        rw [perform_raised below callers described enough]
        exact follow_raised below inner callers instruction _

theorem leave_raised (inner callers : List Frame)
    (unstopped : (machine.leave frame inner).1 ≠ .exited .stopped) :
    (machine.raised below callers).leave (frame.raised below.length)
        (inner.map (Frame.raised below.length) ++ callers) =
      ((machine.leave frame inner).1, (machine.leave frame inner).2.raised below callers) := by
  unfold leave at unstopped ⊢
  rw [height_raised, show (frame.raised below.length).outputs = frame.outputs from rfl]
  split
  · cases inner with
    | nil => simp_all [finish]
    | cons caller inner => rfl
  · rfl

/-- Stepping and raising commute as long as the machine alone does not stop. -/
theorem step_raised (callers : List Frame) (running : machine.status = none)
    (framed : machine.frames ≠ []) (unstopped : machine.step.1 ≠ .exited .stopped) :
    (machine.raised below callers).step =
      (machine.step.1, machine.step.2.raised below callers) := by
  rcases List.exists_cons_of_ne_nil framed with ⟨frame, inner, frames⟩
  have raisedFrames := frames_raised below callers frames
  have raisedRunning : (machine.raised below callers).status = none := running
  have sameProgram : (machine.raised below callers).program = machine.program := rfl
  have sameSource : (frame.raised below.length).source = frame.source := rfl
  have samePosition : (frame.raised below.length).position = frame.position := rfl
  simp only [step, running, frames] at unstopped
  simp only [step, running, frames, raisedRunning, raisedFrames, sameProgram, sameSource,
    samePosition]
  split
  · rfl
  · rename_i code found
    simp only [found] at unstopped
    split
    · exact execute_raised below inner callers _
    · rename_i missing
      simp only [missing] at unstopped
      split
      · rename_i atEnd
        rw [if_pos atEnd] at unstopped
        exact leave_raised below inner callers unstopped
      · rfl

/-- Where the machine alone stops, the raised one goes on with its callers, if there are any. -/
theorem step_raised_of_stopped (callers : List Frame) {after : Machine}
    (running : machine.status = none) (framed : machine.frames ≠ [])
    (stopped : machine.step = (.exited .stopped, after)) :
    (machine.raised below callers).step =
      match callers with
      | [] => (.exited .stopped, after.raised below [])
      | caller :: callers =>
          (.continued, { after with status := none }.raised below (caller :: callers)) := by
  rcases turns_of_exited running framed stopped with _ | ⟨frames, ended, full⟩
  rename_i frame
  have raisedFrames := frames_raised below callers frames
  have raisedRunning : (machine.raised below callers).status = none := running
  rw [step_of_endsAt raisedRunning raisedFrames ended]
  unfold leave
  rw [height_raised, if_pos (show _ = (frame.raised below.length).outputs from full)]
  cases callers with
  | nil => rfl
  | cons caller callers =>
      simp only [Machine.exit, raised, List.map_nil, List.nil_append, running]

end Machine

end StackCert
