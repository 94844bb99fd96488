import StackCert.Proofs.Halting
import StackCert.Proofs.HostContract
import StackCert.Proofs.Metering
import StackCert.Proofs.Opening
import StackCert.Proofs.Outline
import StackCert.Proofs.Reduction

/-!
# Certified entry points do not go wrong

A machine whose open frames are all balanced can go on, or it stops with the
declared number of values, or the instruction at hand aborts: a condition does
not hold, checked arithmetic leaves the words, or a divisor is zero. No other
failure is left to it, since the derivation has the values, the operands and the
room on the stack that the machine tests for. Together with what the moves of a
run preserve, and with the contract of the host, this settles every run of a
certified entry point.

An executor ends a run for two reasons of its own: its meter is exhausted, which
happens only if the limit is below the number of instructions of the entry
point, or its store does not take a word.
-/

namespace StackCert

/-- The failures of an instruction that has the values and the things it names. -/
inductive Instruction.Aborts (instruction : Instruction) : Failure → Prop where
  | condition (assigned : instruction.operation = .ok .ensure) :
      Aborts instruction (.ensureFailed instruction.operand)
  | reduction {reducer : Reducer} {failure : Failure}
      (assigned : instruction.operation = .ok (.reduce reducer))
      (aborts : reducer.Aborts failure) :
      Aborts instruction failure

namespace Machine

theorem condition_of_require {stack after : Stack} {code : UInt8} {failure : Failure}
    (enough : 1 ≤ stack.size) (halted : require stack code = .halt after failure) :
    failure = .ensureFailed code ∧ stack.pop = .ok (0, after) := by
  unfold require at halted
  split at halted
  · rename_i popped
    have empty := (Stack.pop_eq_error_iff.mp popped).1
    omega
  · rename_i popped
    split at halted
    · rename_i isZero
      cases halted
      exact ⟨rfl, isZero ▸ popped⟩
    · simp at halted

/-- A reducer that finds its values and room for its result fails only by itself. -/
theorem combine_of_reducing {layout : Layout} {stack after : Stack} {reducer : Reducer}
    {operand : UInt8} {arity : Nat} {failure : Failure}
    (counted : reducer.arity operand = .ok arity) (enough : arity ≤ stack.size)
    (room : stack.size - arity < stack.limit)
    (halted : reducing layout stack reducer operand = .halt after failure) :
    ∃ kept words, stack.toList = kept ++ words ∧ reducer.arity operand = .ok words.length ∧
      reducer.combine layout operand words = .error failure := by
  simp only [reducing, counted, bind, Except.bind] at halted
  split at halted
  · rename_i reduced
    cases halted
    rcases Stack.combine_of_reduce_eq_error enough room reduced with
      ⟨kept, words, values, length, combined⟩
    exact ⟨kept, words, values, by rw [length]; exact counted, combined⟩
  · simp at halted

/-- Why an instruction that has its values, its operand and room ends a run. -/
inductive Gives (machine : Machine) (instruction : Instruction) : Operation → Failure → Prop where
  /-- The condition on top of the stack does not hold. -/
  | condition {below : Stack} (popped : machine.stack.pop = .ok (0, below)) :
      Gives machine instruction .ensure (.ensureFailed instruction.operand)
  /-- The values on top of the stack cannot be combined. -/
  | reduction {reducer : Reducer} {kept words : List Word} {failure : Failure}
      (values : machine.stack.toList = kept ++ words)
      (counted : reducer.arity instruction.operand = .ok words.length)
      (failed : reducer.combine machine.layout instruction.operand words = .error failure) :
      Gives machine instruction (.reduce reducer) failure

/-- A fetched instruction other than a call that has its operand and room fails by itself. -/
theorem gives_of_perform {machine : Machine} {bounds : Bounds} {frame : Frame}
    {callers : List Frame} {instruction : Instruction} {operation : Operation} {effect : Effect}
    {after : Stack} {failure : Failure} (satisfied : bounds.satisfiedBy machine.context = true)
    (fetches : machine.Fetches frame callers instruction operation effect)
    (plain : operation ≠ .call)
    (admitted : machine.program.admitsOperand bounds (machine.stack.size - frame.base) operation
      instruction.operand = true)
    (room : machine.stack.size - effect.pops + effect.pushes ≤ machine.stack.limit)
    (halted : machine.perform frame operation instruction.operand = .halt after failure) :
    machine.Gives instruction operation failure := by
  have described := fetches.described
  have enough : effect.pops ≤ machine.stack.size :=
    Nat.le_trans fetches.enough (Nat.sub_le _ _)
  cases operation with
  | constant =>
      cases described
      have inside : instruction.operand.toNat < machine.program.constants.size := by
        simpa [Program.admitsOperand] using admitted
      rcases pushing_of_room room machine.program.constants[instruction.operand.toNat] with
        ⟨_, went⟩
      simp [perform, Program.constant, inside, went] at halted
  | stack =>
      cases described
      simp only [Program.admitsOperand, decide_eq_true_eq] at admitted
      have inside : frame.base + instruction.operand.toNat < machine.stack.size := by omega
      have present : ∃ word,
          machine.stack.get (frame.base + instruction.operand.toNat) = .ok word :=
        ⟨_, Stack.get_eq_ok_iff.mpr (List.getElem?_eq_getElem inside)⟩
      rcases present with ⟨word, found⟩
      rcases pushing_of_room room word with ⟨_, went⟩
      simp [perform, found, went] at halted
  | context =>
      cases described
      have present := Context.get?_isSome_of_contains satisfied admitted
      rcases Option.isSome_iff_exists.mp present with ⟨word, found⟩
      rcases pushing_of_room room word with ⟨_, went⟩
      simp [perform, Context.cell, found, went] at halted
  | call => exact absurd rfl plain
  | debug => simp [perform] at halted
  | get => simp [perform] at halted
  | set => simp [perform] at halted
  | ensure =>
      cases described
      rcases condition_of_require enough halted with ⟨rfl, popped⟩
      exact .condition popped
  | reduce reducer =>
      cases counted : reducer.arity instruction.operand with
      | error other => simp [Operation.effect, counted, Except.map] at described
      | ok arity =>
          simp only [Operation.effect, counted, Except.map, Except.ok.injEq] at described
          subst described
          rcases combine_of_reducing counted enough (by simp only at room; omega) halted with
            ⟨kept, words, values, counted, failed⟩
          exact .reduction values counted failed

theorem Gives.aborts {machine : Machine} {instruction : Instruction} {operation : Operation}
    {failure : Failure} (gives : machine.Gives instruction operation failure)
    (supported : machine.layout.Supported) (assigned : instruction.operation = .ok operation) :
    instruction.Aborts failure := by
  cases gives with
  | condition => exact .condition assigned
  | reduction values counted failed =>
      exact .reduction assigned (Reducer.aborts_of_combine supported counted failed)

/-- A call that passes is always entered. -/
theorem perform_call_of_passes {machine : Machine} {bounds : Bounds} {frame : Frame}
    {instruction : Instruction} {effect : Effect}
    (passes : machine.program.Passes bounds frame.source frame.position
      (machine.stack.size - frame.base) instruction .call effect) :
    ∃ callee, machine.perform frame .call instruction.operand = .call callee := by
  rcases passes.ordered rfl with ⟨later, present⟩
  have enough : effect.pops ≤ machine.stack.size :=
    Nat.le_trans passes.enough (Nat.sub_le _ _)
  have described := passes.described
  cases described
  simp only at enough
  simp [perform, enter, later, present, enough]

/-- An instruction that passes and has room ends a run only by itself. -/
theorem gives_of_exited {machine after : Machine} {bounds : Bounds} {frame : Frame}
    {callers : List Frame} {instruction : Instruction} {operation : Operation} {effect : Effect}
    {exit : Exit} (satisfied : bounds.satisfiedBy machine.context = true)
    (running : machine.status = none) (frames : machine.frames = frame :: callers)
    (passes : machine.program.Passes bounds frame.source frame.position
      (machine.stack.size - frame.base) instruction operation effect)
    (room : operation ≠ .call →
      machine.stack.size - effect.pops + effect.pushes ≤ machine.stack.limit)
    (stepped : machine.step = (.exited exit, after)) :
    ∃ failure, exit = .failed failure ∧ machine.Gives instruction operation failure := by
  have fetches : machine.Fetches frame callers instruction operation effect :=
    fetches_of_passes frames passes
  rw [step_of_fetches running fetches] at stepped
  cases control : machine.perform frame operation instruction.operand with
  | next stack => simp [control, follow] at stepped
  | call callee => simp [control, follow] at stepped
  | trap => simp [control, follow] at stepped
  | halt stack failure =>
      -- What the machine tests for has passed, so the operation itself failed.
      have plain : operation ≠ .call := by
        rintro rfl
        rcases perform_call_of_passes passes with ⟨callee, entered⟩
        simp [entered] at control
      rw [control] at stepped
      cases stepped
      exact ⟨failure, rfl, gives_of_perform satisfied fetches plain passes.admitted (room plain)
        control⟩

/-- A sustained machine that exits has the declared values, or its instruction aborts. -/
theorem Sustained.of_exited {machine after : Machine} {bounds : Bounds} {total : Nat} {exit : Exit}
    (sustained : machine.Sustained bounds total) (supported : machine.layout.Supported)
    (satisfied : bounds.satisfiedBy machine.context = true) (running : machine.status = none)
    (framed : machine.frames ≠ []) (stepped : machine.step = (.exited exit, after)) :
    (exit = .stopped ∧ after.stack.size = total) ∨
      ∃ failure, exit = .failed failure ∧
        ∃ instruction ∈ machine.ahead, instruction.Aborts failure := by
  unfold Sustained at sustained
  rcases List.exists_cons_of_ne_nil framed with ⟨frame, callers, frames⟩
  rw [frames] at sustained
  cases sustained with
  | frame above balanced fits rest =>
      rcases balanced.endsAt_or_passes with ended | ⟨instruction, operation, effect, passes⟩
      · have full := (balanced.eq_of_endsAt ended).1
        rw [step_of_endsAt running frames ended] at stepped
        simp only [leave, full, ↓reduceIte] at stepped
        cases rest with
        | done =>
            cases stepped
            exact Or.inl ⟨rfl, by simp only [Machine.exit]; omega⟩
        | frame => simp at stepped
      · have room (plain : operation ≠ .call) :
            machine.stack.size - effect.pops + effect.pushes ≤ machine.stack.limit := by
          rcases balanced.rest_of_plain passes.held passes.assigned plain passes.described with
            ⟨enough, _, restPeak, rfl, restBalanced⟩
          have restTall := restBalanced.height_le_peak
          omega
        rcases gives_of_exited satisfied running frames passes room stepped with
          ⟨failure, rfl, gives⟩
        refine Or.inr ⟨failure, rfl, instruction, ?_, gives.aborts supported passes.assigned⟩
        apply mem_ahead_of_inspect?
        exact inspect?_of_fetches running (fetches_of_passes frames passes)

/-- The machine has come to an instruction that writes a value under a key. -/
def Writes (machine : Machine) (key value : Word) : Prop :=
  ∃ instruction kept, machine.inspect? = some instruction ∧
    instruction.operation = .ok .set ∧ machine.stack.toList = kept ++ [key, value]

end Machine

namespace Evaluation

variable {σ : Type} {host : Host σ} {going : Nat → σ → Prop} {denied : Nat → Failure → σ → Prop}
  {refused : Failure → σ → Prop} {bounds : Bounds} {total : Nat} {space : Word}
  {listed : List Instruction}

/--
A running evaluation that can only stop with `total` values or abort at one of
the listed instructions.
-/
structure Safe (evaluation : Evaluation) (bounds : Bounds) (total : Nat) (space : Word)
    (listed : List Instruction) : Prop where
  running : evaluation.Running
  supported : evaluation.machine.layout.Supported
  satisfied : bounds.satisfiedBy evaluation.machine.context = true
  sustained : evaluation.machine.Sustained bounds total
  owned : evaluation.space = space
  ahead : evaluation.machine.ahead <:+ listed

theorem Safe.of_step {evaluation after : Evaluation} {state state' : σ}
    (safe : evaluation.Safe bounds total space listed)
    (stepped : evaluation.step host state = (none, after, state')) :
    after.Safe bounds total space listed := by
  rcases advances_of_step safe.running stepped with ⟨advances, _, owned⟩
  refine ⟨running_of_step safe.running stepped, ?_, ?_, ?_, ?_, ?_⟩
  · rw [advances.layout_eq]
    exact safe.supported
  · rw [advances.context_eq]
    exact safe.satisfied
  · exact safe.sustained.of_advances advances
  · rw [owned]
    exact safe.owned
  · have behind : after.machine.ahead <:+ evaluation.machine.ahead :=
      ⟨_, (advances.ahead_eq safe.running.machine).symm⟩
    exact behind.trans safe.ahead

/--
The ways in which a safe run can end, by a step that the evaluation `last` is at: it
stops with its values, the host denies or refuses an instruction, or one aborts.
-/
def Ends (host : Host σ) (total : Nat) (listed : List Instruction)
    (denied : Nat → Failure → σ → Prop) (last : Evaluation) (before : σ) (exit : Exit)
    (after : Evaluation) (state : σ) : Prop :=
  (exit = .stopped ∧ after.machine.stack.size = total) ∨
    ∃ failure, exit = .failed failure ∧
      ((∃ count < listed.length, denied count failure state) ∨
        last.Unresolved host before failure state ∨
        ∃ instruction ∈ listed, instruction.Aborts failure)

/-- A step that ends a safe run ends it in one of these ways. -/
theorem Safe.ends_of_step {evaluation after : Evaluation} {state state' : σ} {exit : Exit}
    {count : Nat} (safe : evaluation.Safe bounds total space listed)
    (keeps : host.Keeps space going denied refused) (held : going count state)
    (left : count + evaluation.machine.ahead.length = listed.length)
    (stepped : evaluation.step host state = (some exit, after, state')) :
    Ends host total listed denied evaluation state exit after state' := by
  rcases safe with ⟨running, supported, satisfied, sustained, rfl, ahead⟩
  cases consults_of_step running stepped with
  | @denied instruction failure _ inspected answer =>
      have denial := settles_admission keeps held instruction
      rw [answer] at denial
      have nonempty := List.length_pos_of_mem (Machine.mem_ahead_of_inspect? inspected)
      exact Or.inr ⟨failure, rfl, Or.inl ⟨count, by omega, denial⟩⟩
  | exited admits exited =>
      rcases sustained.of_exited supported satisfied running.machine running.framed exited with
        stopped | ⟨failure, rfl, instruction, member, aborts⟩
      · exact Or.inl stopped
      · exact Or.inr ⟨failure, rfl, Or.inr (Or.inr ⟨instruction, ahead.mem member, aborts⟩)⟩
  | refused admits trapped resolves =>
      exact Or.inr ⟨_, rfl, Or.inr (Or.inl ⟨_, _, _, _, admits, trapped, resolves⟩)⟩

/-- A safe evaluation whose host has permitted all the listed instructions but those ahead. -/
def Counted (going : Nat → σ → Prop) (bounds : Bounds) (total : Nat) (space : Word)
    (listed : List Instruction) (evaluation : Evaluation) (state : σ) : Prop :=
  ∃ count, evaluation.Safe bounds total space listed ∧ going count state ∧
    count + evaluation.machine.ahead.length = listed.length

theorem Counted.of_step {evaluation after : Evaluation} {state state' : σ}
    (keeps : host.Keeps space going denied refused)
    (counted : evaluation.Counted going bounds total space listed state)
    (stepped : evaluation.step host state = (none, after, state')) :
    after.Counted going bounds total space listed state' := by
  rcases counted with ⟨count, safe, held, left⟩
  rcases safe.owned with rfl
  rcases settles_step keeps safe.running held stepped with ⟨_, exits, _⟩ | ⟨heldAfter, _⟩
  · simp at exits
  · refine ⟨_, safe.of_step stepped, heldAfter, ?_⟩
    have advances := (advances_of_step safe.running stepped).1
    rw [advances.ahead_eq safe.running.machine, List.length_append] at left
    omega

/-- A safe run comes to a step that ends it in one of these ways. -/
theorem Safe.ends {evaluation : Evaluation} {state : σ}
    (safe : evaluation.Safe bounds total space listed)
    (keeps : host.Keeps space going denied refused) (held : going 0 state)
    (whole : evaluation.machine.ahead = listed) :
    let ended := evaluation.run host state
    ∃ steps, (∀ earlier < steps, (evaluation.stepAfter host state earlier).1 = none) ∧
      (evaluation.after host state steps).1.Safe bounds total space listed ∧
      Ends host total listed denied (evaluation.after host state steps).1
        (evaluation.after host state steps).2 ended.1 ended.2.1 ended.2.2 := by
  have counted : evaluation.Counted going bounds total space listed state :=
    ⟨0, safe, held, by rw [whole, Nat.zero_add]⟩
  rcases exists_last_moment _ (Counted.of_step keeps) counted with
    ⟨steps, goesOn, ⟨count, safeThen, heldThen, left⟩, last⟩
  exact ⟨steps, goesOn, safeThen, safeThen.ends_of_step keeps heldThen left last⟩

end Evaluation

namespace Executor

variable {σ : Type}

theorem store_exhibit (executor : Executor σ) (style : DebugStyle) (machine : Machine) :
    (executor.exhibit style machine).store = executor.store := by
  unfold exhibit
  split <;> rfl

theorem meter_exhibit (executor : Executor σ) (style : DebugStyle) (machine : Machine) :
    (executor.exhibit style machine).meter = executor.meter := by
  unfold exhibit
  split <;> rfl

/-- An executor counts an instruction up to its limit, and its store is not touched. -/
theorem count_of_counts {executor : Executor σ} {limit : UInt64} {counted : Nat}
    (counts : executor.meter.Counts limit counted) (instruction : Instruction) (height : Nat) :
    (∃ after, executor.count instruction height = (.ok (), after) ∧
      after.store = executor.store ∧ after.meter.Counts limit (counted + 1)) ∨
    ∃ after, executor.count instruction height = (.error .resourceExhausted, after) ∧
      after.store = executor.store ∧ counted = limit.toNat := by
  rcases counts.recordStep instruction with
    ⟨meter, recorded, countsOn⟩ | ⟨meter, recorded, exhausted⟩
  · refine Or.inl ⟨{ executor.log .trace fun _ => admission executor.meter instruction height with
      meter }, ?_, rfl, countsOn⟩
    simp only [count, log, recorded]
  · refine Or.inr ⟨{ executor.log .trace fun _ => admission executor.meter instruction height with
      meter }, ?_, rfl, exhausted⟩
    simp only [count, log, recorded]

/-- An executor denies what its meter does not count and refuses what its store does not take. -/
theorem host_keeps [Store σ] (space : Word) (limit : UInt64) :
    (host : Host (Executor σ)).Keeps space
      (fun count executor => executor.meter.Counts limit count)
      (fun count failure _ => failure = .resourceExhausted ∧ count = limit.toNat)
      (fun failure executor =>
        ∃ store slot value, Store.set store slot value = (.error failure, executor.store)) := by
  constructor
  case observe =>
    intro count executor event counts
    exact counts
  case permit =>
    intro count executor instruction stack counts
    rcases count_of_counts counts instruction stack.size with
      ⟨after, counted, _, countsOn⟩ | ⟨after, counted, _, exhausted⟩
    · simp only [host, Host.Settles, counted]
      exact countsOn
    · simp only [host, Host.Settles, counted]
      exact ⟨trivial, exhausted⟩
  case get =>
    intro count executor key counts
    exact counts
  case set =>
    intro count executor key value counts
    rcases answered : Store.set executor.store ⟨space, key⟩ value with ⟨result, store'⟩
    cases result with
    | ok _ =>
        simp only [host, Host.Settles, answered]
        exact counts
    | error failure =>
        simp only [host, Host.Settles, answered]
        exact ⟨executor.store, ⟨space, key⟩, value, answered⟩
  case debug =>
    intro count executor style machine counts
    simp only [host, Host.Settles, meter_exhibit]
    exact counts

theorem store_admits [Store σ] {evaluation : Evaluation} {executor admitted : Executor σ}
    (admits : evaluation.Admits host executor admitted) : admitted.store = executor.store := by
  cases admits with
  | unasked => rfl
  | permitted inspected answer =>
      have counted := congrArg (·.2.store) answer
      exact counted.symm

/-- What an executor does not resolve is a write that its store does not take. -/
theorem writes_of_unresolved [Store σ] {evaluation : Evaluation} {executor after : Executor σ}
    {failure : Failure} (running : evaluation.Running)
    (unresolved : evaluation.Unresolved host executor failure after) :
    ∃ key value, evaluation.machine.Writes key value ∧
      Store.set executor.store ⟨evaluation.space, key⟩ value = (.error failure, after.store) := by
  rcases unresolved with ⟨instruction, machine, admitted, ended, admits, trapped, resolves⟩
  rcases List.exists_cons_of_ne_nil running.framed with ⟨frame, callers, frames⟩
  rcases Machine.fetches_of_trapped running.machine frames trapped with
    ⟨operation, effect, fetches, _, rfl⟩
  cases resolves with
  | unread assigned popped answer => simp [host] at answer
  | shown assigned named answer => simp [host] at answer
  | @unwritten key value keyed below _ _ assigned valuePopped keyPopped answer =>
      refine ⟨key, value, ⟨instruction, below.toList, ?_, assigned, ?_⟩, ?_⟩
      · exact Machine.inspect?_of_fetches running.machine fetches
      · have upper := (Stack.pop_eq_ok_iff.mp valuePopped).1
        have lower := (Stack.pop_eq_ok_iff.mp keyPopped).1
        simpa [lower] using upper
      · rw [← store_admits admits]
        simp only [host, Prod.mk.injEq] at answer
        exact Prod.ext answer.1 (congrArg Executor.store answer.2)

end Executor

namespace Settings

/--
The evaluation of a request goes on until it comes to a write, which the store does
not take.
-/
def Declined {σ : Type} [Store σ] (settings : Settings) (expression : Expression)
    (request : Request) (stepLimit : UInt64) (store : σ) (journal : Journal) (failure : Failure)
    (after : σ) : Prop :=
  ∃ evaluation steps key value, settings.opening? expression request = some evaluation ∧
    let executor := Executor.start store stepLimit journal
    let now := evaluation.after Executor.host executor steps
    (∀ earlier < steps, (evaluation.stepAfter Executor.host executor earlier).1 = none) ∧
      now.1.machine.Writes key value ∧
      Store.set now.2.store ⟨request.space, key⟩ value = (.error failure, after)

/-- How an evaluation of an entry point of a certified program can end. -/
inductive Settled {σ : Type} [Store σ] (settings : Settings) (expression : Expression)
    (request : Request) (expected : Nat) (stepLimit : UInt64) (store : σ) (journal : Journal) :
    Except Failure (List Word) → σ → Prop where
  | returned {values : List Word} {after : σ} (length : values.length = expected) :
      Settled settings expression request expected stepLimit store journal (.ok values) after
  /-- An instruction that the run comes to has aborted. -/
  | aborted {instruction : Instruction} {failure : Failure} {after : σ}
      (reached : instruction ∈ expression.program.unfold request.source 0)
      (aborts : instruction.Aborts failure) :
      Settled settings expression request expected stepLimit store journal (.error failure) after
  /-- The limit is below the number of instructions. -/
  | exhausted {after : σ}
      (short : stepLimit.toNat < (expression.program.unfold request.source 0).length) :
      Settled settings expression request expected stepLimit store journal
        (.error .resourceExhausted) after
  /-- The store has not taken a word that the run has come to write, for a reason of its own. -/
  | declined {failure : Failure} {after : σ}
      (declined : settings.Declined expression request stepLimit store journal failure after) :
      Settled settings expression request expected stepLimit store journal (.error failure) after

end Settings

/-- The failures that certification precludes, and the mark of a run that broke off. -/
def Failure.precluded : Failure → Bool
  | .unknownOpcode _ | .stackUnderflow | .stackOverflow | .operandOutOfBounds
  | .stackMismatch _ _ | .malformedEncoding | .undefined => true
  | .ensureFailed _ | .resourceExhausted | .overflow | .divisionByZero | .other _ => false

theorem Instruction.Aborts.not_precluded {instruction : Instruction} {failure : Failure}
    (aborts : instruction.Aborts failure) : failure.precluded = false := by
  cases aborts with
  | condition => rfl
  | reduction assigned aborts => cases aborts <;> rfl

/-- A store gives no failure that certification precludes as a reason of its own. -/
def Store.Sparing (σ : Type) [Store σ] : Prop :=
  ∀ (store : σ) (slot : Slot) (value : Word) (failure : Failure),
    (Store.set store slot value).1 = .error failure → failure.precluded = false

namespace Settings

variable {σ : Type} [Store σ] {deployer evaluator : Settings} {program : Program} {bounds : Bounds}
  {outputs : List Nat} {expression : Expression} {request : Request}

theorem Settled.not_precluded (sparing : Store.Sparing σ) {expected : Nat} {stepLimit : UInt64}
    {store after : σ} {journal : Journal} {failure : Failure}
    (settled : evaluator.Settled expression request expected stepLimit store journal
      (.error failure) after) : failure.precluded = false := by
  cases settled with
  | aborted reached aborts => exact aborts.not_precluded
  | exhausted => rfl
  | declined declined =>
      rcases declined with ⟨_, _, _, _, _, _, _, refusal⟩
      exact sparing _ _ _ failure (congrArg Prod.fst refusal)

theorem evaluateWithLimit_settled
    (deployed : deployer.deploy program bounds outputs = .ok expression)
    (supported : evaluator.layout.Supported) {expected : Nat}
    (entry : outputs[request.source]? = some expected)
    (satisfied : bounds.satisfiedBy request.context = true) (stepLimit : UInt64) (store : σ)
    (journal : Journal) :
    let result := evaluator.evaluateWithLimit expression request stepLimit store journal
    evaluator.Settled expression request expected stepLimit store journal result.1
      result.2.store := by
  rcases deploy_eq_ok_iff.mp deployed with ⟨heights, accepted, rfl⟩
  rcases Certifier.balanced_of_check accepted entry with ⟨peak, height, balanced⟩
  have opened : evaluator.opening? ⟨program, bounds, outputs, heights⟩ request =
      some (.start (.start program request.context request.source expected peak
        evaluator.layout) request.space) :=
    opening?_eq_some_iff.mpr ⟨expected, peak, entry, height, satisfied, rfl⟩
  have safe : (Evaluation.start (.start program request.context request.source expected peak
      evaluator.layout) request.space).Safe bounds expected request.space
      (program.unfold request.source 0) := by
    refine ⟨Evaluation.running_start .., supported, satisfied, ?_, rfl, ?_⟩
    · exact Machine.sustained_start_iff.mpr ⟨rfl, peak, Nat.le_refl peak, balanced⟩
    · simp [Evaluation.start]
  have counts : (Executor.start store stepLimit journal).meter.Counts stepLimit 0 :=
    Meter.counts_ofLimit stepLimit
  rcases safe.ends (Executor.host_keeps request.space stepLimit) counts (by simp [Evaluation.start])
    with ⟨steps, goesOn, safeThen, ends⟩
  rcases ran : Evaluation.run Executor.host (.start (.start program request.context request.source
    expected peak evaluator.layout) request.space) (Executor.start store stepLimit journal) with
    ⟨exit, after, executor⟩
  rcases evaluateWithLimit_of_run opened ran with ⟨returned, kept, _⟩
  rw [ran] at ends
  simp only [returned, kept]
  rcases ends with ⟨rfl, size⟩ |
    ⟨failure, rfl, ⟨count, below, rfl, spent⟩ | unresolved | ⟨instruction, reached, aborts⟩⟩
  · exact .returned size
  · exact .exhausted (spent ▸ below)
  · rcases Executor.writes_of_unresolved safeThen.running unresolved with
      ⟨key, value, writes, refusal⟩
    rw [safeThen.owned] at refusal
    exact .declined ⟨_, steps, key, value, opened, goesOn, writes, refusal⟩
  · exact .aborted reached aborts

theorem evaluateWithLimit_of_unentered {request : Request} {stepLimit : UInt64} {store : σ}
    {journal : Journal}
    (unentered : expression.entryPoints ≤ request.source ∨
      expression.bounds.satisfiedBy request.context = false) :
    (evaluator.evaluateWithLimit expression request stepLimit store journal).1 =
      .error .operandOutOfBounds := by
  simp only [evaluateWithLimit]
  split
  · rename_i outputFound _
    rcases unentered with outside | unsatisfied
    · have inside := (List.getElem?_eq_some_iff.mp outputFound).1
      exact absurd inside (Nat.not_lt.mpr outside)
    · simp [unsatisfied]
  · rfl

/--
Certification is sound. An evaluation is turned away exactly if there is no such
entry point or the context lacks a cell; any other returns the declared number of
values or aborts, and never with a failure that certification precludes.
-/
theorem deployed_evaluation_settles
    (deployed : deployer.deploy program bounds outputs = .ok expression)
    {fieldBits : Nat} {order : FieldOrder}
    (made : Layout.ofWidth? fieldBits order = some evaluator.layout)
    (sparing : Store.Sparing σ)
    (request : Request) (stepLimit : UInt64) (store : σ) (journal : Journal) :
    let result := evaluator.evaluateWithLimit expression request stepLimit store journal
    (result.1 = .error .operandOutOfBounds ↔
      expression.entryPoints ≤ request.source ∨
        bounds.satisfiedBy request.context = false) ∧
    ∀ expected, outputs[request.source]? = some expected →
      bounds.satisfiedBy request.context = true →
      evaluator.Settled expression request expected stepLimit store journal result.1
        result.2.store ∧
      ∀ failure, result.1 = .error failure → failure.precluded = false := by
  intro result
  have kept : expression.outputs = outputs ∧ expression.bounds = bounds := by
    rcases deploy_eq_ok_iff.mp deployed with ⟨heights, _, rfl⟩
    exact ⟨rfl, rfl⟩
  have settled : ∀ expected, outputs[request.source]? = some expected →
      bounds.satisfiedBy request.context = true →
      evaluator.Settled expression request expected stepLimit store journal result.1
        result.2.store :=
    fun expected entry satisfied => evaluateWithLimit_settled deployed
      (Layout.supported_of_ofWidth? made) entry satisfied stepLimit store journal
  refine ⟨⟨?_, ?_⟩, ?_⟩
  · intro turnedAway
    apply Classical.byContradiction
    intro entered
    -- An evaluation that was let in ends without the failure that turns one away.
    rw [not_or, Nat.not_le, Bool.not_eq_false, Expression.entryPoints, kept.1] at entered
    have ended := settled _ (List.getElem?_eq_getElem entered.1) entered.2
    rw [turnedAway] at ended
    exact absurd (ended.not_precluded sparing) (by decide)
  · intro unentered
    rw [← kept.2] at unentered
    exact evaluateWithLimit_of_unentered unentered
  · intro expected entry satisfied
    have ended := settled expected entry satisfied
    refine ⟨ended, ?_⟩
    intro failure failed
    rw [failed] at ended
    exact ended.not_precluded sparing

end Settings

theorem AuditStore.sparing : Store.Sparing AuditStore := by
  intro store slot value failure refused
  change (store.put slot value).1 = .error failure at refused
  unfold AuditStore.put at refused
  split at refused
  · cases refused
    rfl
  · simp at refused

/-- A quotient that a called source computes, written to a store that takes no words. -/
theorem Settings.deployed_evaluation_settles_refused :
    let program : Program :=
      ⟨#[#[0x00, 0, 0x00, 1, 0x00, 0, 0x03, 0x91, 0x31, 0], #[0x13, 2]], #[7, 2]⟩
    let expression : Expression := ⟨program, ⟨[]⟩, [0], [3]⟩
    let store : AuditStore := { readOnly := true }
    let result := Settings.standard.evaluateWithLimit expression {} 10 store
    Settings.standard.deploy program ⟨[]⟩ [0] = .ok expression ∧
      result.1 = .error AuditStore.refusal ∧ result.2.store = store ∧
      Settings.standard.Settled expression {} 0 10 store {} result.1 result.2.store ∧
      AuditStore.refusal.precluded = false := by
  intro program expression store result
  have deployed : Settings.standard.deploy program ⟨[]⟩ [0] = .ok expression := by decide +kernel
  have made : Layout.ofWidth? 32 .lowestFirst = some Settings.standard.layout := by decide
  have refused : result.1 = .error AuditStore.refusal ∧ result.2.store = store :=
    evaluateWithLimit_of_runFor 7 rfl (by decide +kernel)
  have settles := (deployed_evaluation_settles deployed made AuditStore.sparing {} 10 store {}).2
  rcases settles 0 (by decide) (by decide) with ⟨settled, spared⟩
  exact ⟨deployed, refused.1, refused.2, settled, spared _ refused.1⟩

end StackCert
