import StackCert.Certifier
import StackCert.Evaluation

/-!
# What an instruction does to the stack

An effect announces how many values an instruction takes and how many it puts
in their place. `Stack.Replaces` names the values that were taken and those that
were given for them, and says that whatever lies deeper is untouched;
`Stack.Exchanges` counts them. `Operation.yield` computes the values given from
those taken and the little else that an operation looks at. Every operation that
the machine runs by itself, and every one that a host resolves, takes and gives as
many values as its effect announces, and gives those that it yields
(`Operation.TakesEffect`), whether the program was certified or not. For the
instructions of the host, `Evaluation.Resolves` lists its answers with what they
leave of the evaluation and of its own state.

An operation that goes on has also found what its operand names. This is the
same test that certification makes beforehand, against the bounds that the
context itself satisfies.
-/

namespace StackCert

namespace Stack

/-- The values on top were replaced as an effect says; the deeper ones are the same. -/
structure Exchanges (before after : Stack) (effect : Effect) : Prop where
  enough : effect.pops ≤ before.size
  limit : after.limit = before.limit
  kept : ∃ pushed : List Word, pushed.length = effect.pushes ∧
    after.toList = before.toList.take (before.size - effect.pops) ++ pushed

theorem Exchanges.size {before after : Stack} {effect : Effect}
    (exchanges : before.Exchanges after effect) :
    after.size = before.size - effect.pops + effect.pushes := by
  rcases exchanges.kept with ⟨pushed, count, words⟩
  rw [← length_toList after, words, List.length_append, List.length_take, length_toList, count]
  omega

theorem Exchanges.refl (stack : Stack) : stack.Exchanges stack ⟨0, 0⟩ := by
  refine ⟨Nat.zero_le _, rfl, [], rfl, ?_⟩
  rw [Nat.sub_zero, List.append_nil, ← length_toList, List.take_length]

/-- Values can be taken in two turns as long as nothing is put in between. -/
theorem Exchanges.trans {before between after : Stack} {taken : Nat} {effect : Effect}
    (first : before.Exchanges between ⟨taken, 0⟩) (second : between.Exchanges after effect) :
    before.Exchanges after ⟨taken + effect.pops, effect.pushes⟩ := by
  have firstSize := first.size
  have firstEnough := first.enough
  have secondEnough := second.enough
  rcases first.kept with ⟨none, noneLength, betweenWords⟩
  rcases second.kept with ⟨pushed, count, afterWords⟩
  rw [List.length_eq_zero_iff.mp noneLength, List.append_nil] at betweenWords
  simp only [Nat.add_zero] at firstSize firstEnough betweenWords ⊢
  refine ⟨by simp only; omega, second.limit.trans first.limit, pushed, count, ?_⟩
  rw [afterWords, betweenWords, List.take_take, firstSize]
  congr 2
  simp only
  omega

/-- The values on top were replaced by others; the deeper ones are the same. -/
structure Replaces (before after : Stack) (taken given : List Word) : Prop where
  limit : after.limit = before.limit
  kept : ∃ kept : List Word, before.toList = kept ++ taken ∧ after.toList = kept ++ given

theorem Replaces.refl (stack : Stack) : stack.Replaces stack [] [] :=
  ⟨rfl, stack.toList, (List.append_nil _).symm, (List.append_nil _).symm⟩

theorem Replaces.trans {before between after : Stack} {upper lower given : List Word}
    (first : before.Replaces between upper []) (second : between.Replaces after lower given) :
    before.Replaces after (lower ++ upper) given := by
  rcases first with ⟨firstLimit, kept, beforeWords, betweenWords⟩
  rcases second with ⟨secondLimit, deeper, betweenWords', afterWords⟩
  refine ⟨secondLimit.trans firstLimit, deeper, ?_, afterWords⟩
  rw [beforeWords, ← List.append_assoc, ← betweenWords', betweenWords, List.append_nil]

theorem Replaces.exchanges {before after : Stack} {taken given : List Word}
    (replaces : before.Replaces after taken given) :
    before.Exchanges after ⟨taken.length, given.length⟩ := by
  rcases replaces with ⟨limit, kept, beforeWords, afterWords⟩
  have size : before.size = kept.length + taken.length := by
    rw [← length_toList, beforeWords, List.length_append]
  refine ⟨by simp only; omega, limit, given, rfl, ?_⟩
  rw [afterWords, beforeWords, size, Nat.add_sub_cancel, List.take_left]

theorem replaces_of_push {stack after : Stack} {word : Word}
    (pushed : stack.push word = .ok after) : stack.Replaces after [] [word] := by
  rcases push_eq_ok_iff.mp pushed with ⟨_, words, limit⟩
  exact ⟨limit, stack.toList, (List.append_nil _).symm, words⟩

theorem replaces_of_pop {stack after : Stack} {word : Word}
    (popped : stack.pop = .ok (word, after)) : stack.Replaces after [word] [] := by
  rcases pop_eq_ok_iff.mp popped with ⟨words, limit⟩
  exact ⟨limit, after.toList, words, (List.append_nil _).symm⟩

theorem exchanges_of_pop {stack after : Stack} {word : Word}
    (popped : stack.pop = .ok (word, after)) : stack.Exchanges after ⟨1, 0⟩ :=
  (replaces_of_pop popped).exchanges

theorem exchanges_of_discard {stack after : Stack} {count : Nat}
    (discarded : stack.discard count = .ok after) : stack.Exchanges after ⟨count, 0⟩ := by
  rcases discard_eq_ok_iff.mp discarded with ⟨enough, words, limit⟩
  exact ⟨enough, limit, [], rfl, by rw [words, List.append_nil]⟩

theorem pop_eq_error_iff {stack : Stack} {failure : Failure} :
    stack.pop = .error failure ↔ stack.size = 0 ∧ failure = .stackUnderflow := by
  simp only [pop]
  cases last : stack.words.back? with
  | none =>
      have empty : stack.size = 0 := by simpa [size] using last
      simp only [Except.error.injEq, empty, true_and]
      exact eq_comm
  | some word =>
      have nonempty : stack.size ≠ 0 := by
        intro empty
        have : stack.words = #[] := by simpa [size] using empty
        simp [this] at last
      simp [nonempty]

theorem get_eq_ok_iff {stack : Stack} {index : Nat} {word : Word} :
    stack.get index = .ok word ↔ stack.toList[index]? = some word := by
  rw [get, toList, Array.getElem?_toList]
  cases stack.words[index]? <;> simp

/-- A reduction that succeeded took its values away and left the one they combine to. -/
theorem replaces_of_reduce {stack after : Stack} {count : Nat}
    {combine : List Word → Except Failure Word}
    (reduced : stack.reduce count combine = .ok after) :
    ∃ taken result, taken.length = count ∧ combine taken = .ok result ∧
      stack.Replaces after taken [result] := by
  unfold reduce at reduced
  cases topped : stack.top count with
  | error failure => simp [topped, bind, Except.bind] at reduced
  | ok taken =>
      cases combined : combine taken with
      | error failure => simp [topped, combined, bind, Except.bind] at reduced
      | ok result =>
          cases discarded : stack.discard count with
          | error failure => simp [topped, combined, discarded, bind, Except.bind] at reduced
          | ok below =>
              simp only [topped, combined, discarded, bind, Except.bind] at reduced
              rcases top_eq_ok_iff.mp topped with ⟨enough, takenWords⟩
              rcases discard_eq_ok_iff.mp discarded with ⟨_, belowWords, belowLimit⟩
              rcases push_eq_ok_iff.mp reduced with ⟨_, afterWords, afterLimit⟩
              refine ⟨taken, result, ?_, combined, afterLimit.trans belowLimit, below.toList, ?_,
                afterWords⟩
              · rw [takenWords, List.length_drop, length_toList]
                omega
              · rw [belowWords, takenWords, List.take_append_drop]

/-- With its values there and room for the result, a reduction fails only if combining does. -/
theorem combine_of_reduce_eq_error {stack : Stack} {count : Nat}
    {combine : List Word → Except Failure Word} {failure : Failure}
    (enough : count ≤ stack.size) (room : stack.size - count < stack.limit)
    (reduced : stack.reduce count combine = .error failure) :
    ∃ kept words, stack.toList = kept ++ words ∧ words.length = count ∧
      combine words = .error failure := by
  have topped : stack.top count = .ok (stack.toList.drop (stack.size - count)) :=
    top_eq_ok_iff.mpr ⟨enough, rfl⟩
  refine ⟨_, stack.toList.drop (stack.size - count), (List.take_append_drop _ _).symm, ?_, ?_⟩
  · rw [List.length_drop, length_toList]
    omega
  unfold reduce at reduced
  cases combined : combine (stack.toList.drop (stack.size - count)) with
  | error other =>
      simpa [topped, combined, bind, Except.bind] using reduced
  | ok result =>
      exfalso
      cases discarded : stack.discard count with
      | error other =>
          simp [discard, show count ≤ stack.words.size from enough] at discarded
      | ok below =>
          have sizes := (exchanges_of_discard discarded).size
          have limits := (exchanges_of_discard discarded).limit
          simp only [topped, combined, discarded, bind, Except.bind] at reduced
          have full := (push_eq_error_iff.mp reduced).1
          simp only at sizes
          omega

/-- Values that are there, at least one of them, leave room for what they combine to. -/
theorem collapse_of_enough {stack : Stack} {count : Nat} (positive : 0 < count)
    (enough : count ≤ stack.size) :
    ∃ words below, words.length = count ∧ stack.top count = .ok words ∧
      stack.discard count = .ok below ∧ below.size < below.limit := by
  have topped : stack.top count = .ok (stack.toList.drop (stack.size - count)) :=
    top_eq_ok_iff.mpr ⟨enough, rfl⟩
  cases discarded : stack.discard count with
  | error failure => simp [discard, show count ≤ stack.words.size from enough] at discarded
  | ok below =>
      have exchanges := exchanges_of_discard discarded
      have size := exchanges.size
      have limit := exchanges.limit
      have fits : stack.size ≤ stack.limit := stack.size_le_limit
      refine ⟨_, below, ?_, topped, rfl, ?_⟩
      · rw [List.length_drop, length_toList]
        omega
      · simp only at size
        omega

end Stack

namespace Context

/-- A cell is within the bounds of its own context exactly if it exists. -/
theorem contains_bounds (context : Context) (column row : Nat) :
    context.bounds.contains column row = (context.get? column row).isSome := by
  simp only [bounds, Bounds.contains, get?, List.getElem?_map]
  cases context.columns[column]? with
  | none => rfl
  | some words =>
      by_cases inside : row < words.length
      · simp [inside]
      · simp [inside]

/-- A context satisfies its own bounds. -/
theorem bounds_satisfiedBy (context : Context) :
    context.bounds.satisfiedBy context = true := by
  have paired : (context.columns.map List.length).zip context.columns =
      context.columns.map fun column => (column.length, column) := by
    simpa only [List.map_id, id] using List.zip_map' (f := List.length) (g := id)
  simp [Bounds.satisfiedBy, bounds, paired]

/-- A context that satisfies bounds has every cell that they contain. -/
theorem get?_isSome_of_contains {bounds : Bounds} {context : Context} {column row : Nat}
    (satisfied : bounds.satisfiedBy context = true)
    (contained : bounds.contains column row = true) : (context.get? column row).isSome := by
  simp only [Bounds.satisfiedBy, Bool.and_eq_true, decide_eq_true_eq, List.all_eq_true] at satisfied
  rcases satisfied with ⟨columns, rowsFit⟩
  unfold Bounds.contains at contained
  cases rowsFound : bounds.rows[column]? with
  | none => simp [rowsFound] at contained
  | some rows =>
      have inRows := (List.getElem?_eq_some_iff.mp rowsFound).1
      have inColumns : column < context.columns.length := by omega
      have wordsFound := List.getElem?_eq_getElem inColumns
      have fits := rowsFit (rows, context.columns[column]) (by
        apply List.mem_of_getElem? (i := column)
        rw [List.getElem?_zip_eq_some]
        exact ⟨rowsFound, wordsFound⟩)
      simp only [rowsFound, decide_eq_true_eq] at contained fits
      have inside : row < context.columns[column].length := by omega
      simp [get?, wordsFound, inside]

theorem cell_eq_ok_iff {context : Context} {cell : CellOperand} {word : Word} :
    context.cell cell = .ok word ↔ context.get? cell.column cell.row = some word := by
  unfold Context.cell
  cases context.get? cell.column cell.row <;> simp

end Context

theorem Program.constant_eq_ok_iff {program : Program} {index : Nat} {word : Word} :
    program.constant index = .ok word ↔ program.constants[index]? = some word := by
  unfold Program.constant
  cases program.constants[index]? <;> simp

/-- What an operation may look at besides its operand and the values it takes. -/
structure Outlook where
  constants : Array Word
  context : Context
  layout : Layout
  /-- The slot of the frame that the operand names. -/
  slot? : Option Word
  /-- What the host answers when a key is read. -/
  answer : Word → Except Failure Word

namespace Operation

/-- An operation is the one that its opcode stands for. -/
theorem assigned (operation : Operation) (operand : UInt8) :
    Instruction.operation ⟨operation.opcode, operand⟩ = .ok operation :=
  Instruction.operation_eq_ok_iff.mpr (Opcode.operation?_opcode operation)

/--
The values that an operation gives for those it takes. Only a copy looks at the slot
and only a read at the host's answer.
-/
def yield (outlook : Outlook) (operand : UInt8) (taken : List Word) : Operation → List Word
  | .constant => outlook.constants[operand.toNat]?.toList
  | .stack => outlook.slot?.toList
  | .context =>
      let cell := CellOperand.ofByte operand
      (outlook.context.get? cell.column cell.row).toList
  | .get => taken.filterMap fun key => (outlook.answer key).toOption
  | .reduce reducer => (reducer.combine outlook.layout operand taken).toOption.toList
  | .call | .debug | .set | .ensure => []

/-- As many values as an effect announces were taken, and as many given, those yielded. -/
structure TakesEffect (operation : Operation) (operand : UInt8) (outlook : Outlook)
    (effect : Effect) (taken : List Word) (before after : Stack) : Prop where
  pops : taken.length = effect.pops
  pushes : (operation.yield outlook operand taken).length = effect.pushes
  replaces : before.Replaces after taken (operation.yield outlook operand taken)

theorem takesEffect_of_replaces {operation : Operation} {operand : UInt8} {outlook : Outlook}
    {taken given : List Word} {before after : Stack}
    (yields : operation.yield outlook operand taken = given)
    (replaces : before.Replaces after taken given) :
    operation.TakesEffect operand outlook ⟨taken.length, given.length⟩ taken before after := by
  subst yields
  exact ⟨rfl, rfl, replaces⟩

theorem TakesEffect.exchanges {operation : Operation} {operand : UInt8} {outlook : Outlook}
    {effect : Effect} {taken : List Word} {before after : Stack}
    (takes : operation.TakesEffect operand outlook effect taken before after) :
    before.Exchanges after effect := by
  have exchanges := takes.replaces.exchanges
  rwa [takes.pops, takes.pushes] at exchanges

end Operation

namespace Machine

/-- What an operation in a frame may look at, given how the host answers. -/
def outlook (machine : Machine) (frame : Frame) (operand : UInt8)
    (answer : Word → Except Failure Word) : Outlook where
  constants := machine.program.constants
  context := machine.context
  layout := machine.layout
  slot? := (machine.stack.toList.drop frame.base)[operand.toNat]?
  answer := answer

theorem replaces_of_pushing {stack after : Stack} {value : Except Failure Word}
    (went : pushing stack value = .next after) :
    ∃ word, value = .ok word ∧ stack.Replaces after [] [word] := by
  unfold pushing at went
  split at went
  · simp at went
  · split at went
    · simp at went
    · rename_i pushed
      cases went
      exact ⟨_, rfl, Stack.replaces_of_push pushed⟩

theorem pushing_of_room {stack : Stack} (room : stack.size < stack.limit) (word : Word) :
    ∃ after, pushing stack (.ok word) = .next after := by
  cases pushed : stack.push word with
  | error failure =>
      have full := (Stack.push_eq_error_iff.mp pushed).1
      omega
  | ok after => exact ⟨after, by simp [pushing, pushed]⟩

/-- With room on the stack the word comes on top of what is there. -/
theorem pushed_of_room {stack : Stack} (room : stack.size < stack.limit) (word : Word) :
    ∃ after, pushing stack (.ok word) = .next after ∧ after.toList = stack.toList ++ [word] ∧
      after.limit = stack.limit := by
  rcases pushing_of_room room word with ⟨after, went⟩
  rcases replaces_of_pushing went with ⟨_, isWord, limit, under, before, behind⟩
  cases isWord
  rw [List.append_nil] at before
  exact ⟨after, went, by rw [behind, before], limit⟩

theorem replaces_of_require {stack after : Stack} {code : UInt8}
    (went : require stack code = .next after) :
    ∃ condition, stack.Replaces after [condition] [] := by
  unfold require at went
  split at went
  · simp at went
  · rename_i popped
    split at went
    · simp at went
    · cases went
      exact ⟨_, Stack.replaces_of_pop popped⟩

theorem replaces_of_reducing {layout : Layout} {stack after : Stack} {reducer : Reducer}
    {operand : UInt8} (went : reducing layout stack reducer operand = .next after) :
    ∃ taken result, reducer.arity operand = .ok taken.length ∧
      reducer.combine layout operand taken = .ok result ∧ stack.Replaces after taken [result] := by
  unfold reducing at went
  cases counted : reducer.arity operand with
  | error failure => simp [counted, bind, Except.bind] at went
  | ok arity =>
      simp only [counted, bind, Except.bind] at went
      split at went
      · simp at went
      · rename_i reduced
        cases went
        rcases Stack.replaces_of_reduce reduced with ⟨taken, result, rfl, combined, replaces⟩
        exact ⟨taken, result, rfl, combined, replaces⟩

theorem reducing_of_combine {layout : Layout} {stack below : Stack} {reducer : Reducer}
    {operand : UInt8} {count : Nat} {words : List Word}
    (counted : reducer.arity operand = .ok count) (topped : stack.top count = .ok words)
    (discarded : stack.discard count = .ok below) (room : below.size < below.limit) :
    reducing layout stack reducer operand =
      match reducer.combine layout operand words with
      | .error failure => .halt stack failure
      | .ok word => pushing below (.ok word) := by
  simp only [reducing, counted, Stack.reduce, topped, discarded, bind, Except.bind]
  cases reducer.combine layout operand words with
  | error failure => rfl
  | ok word =>
      cases pushed : below.push word with
      | error failure =>
          have full := (Stack.push_eq_error_iff.mp pushed).1
          omega
      | ok after => simp [pushing, pushed]

/-- An operation that goes on takes the effect that it announces. The host is not asked. -/
theorem takesEffect_of_perform {machine : Machine} {frame : Frame} {operation : Operation}
    {operand : UInt8} {effect : Effect} {after : Stack} (answer : Word → Except Failure Word)
    (described : operation.effect operand = .ok effect)
    (performed : machine.perform frame operation operand = .next after) :
    ∃ taken, operation.TakesEffect operand (machine.outlook frame operand answer) effect taken
      machine.stack after := by
  cases operation with
  | constant =>
      cases described
      rcases replaces_of_pushing performed with ⟨word, found, replaces⟩
      refine ⟨[], Operation.takesEffect_of_replaces ?_ replaces⟩
      simp [Operation.yield, outlook, Program.constant_eq_ok_iff.mp found]
  | stack =>
      cases described
      rcases replaces_of_pushing performed with ⟨word, found, replaces⟩
      refine ⟨[], Operation.takesEffect_of_replaces ?_ replaces⟩
      simp [Operation.yield, outlook, Stack.get_eq_ok_iff.mp found]
  | context =>
      cases described
      rcases replaces_of_pushing performed with ⟨word, found, replaces⟩
      refine ⟨[], Operation.takesEffect_of_replaces ?_ replaces⟩
      simp [Operation.yield, outlook, Context.cell_eq_ok_iff.mp found]
  | call =>
      simp only [perform, enter] at performed
      repeat' split at performed
      all_goals simp at performed
  | debug => simp [perform] at performed
  | ensure =>
      cases described
      rcases replaces_of_require performed with ⟨condition, replaces⟩
      exact ⟨[condition], rfl, rfl, replaces⟩
  | get => simp [perform] at performed
  | set => simp [perform] at performed
  | reduce reducer =>
      rcases replaces_of_reducing performed with ⟨taken, result, counted, combined, replaces⟩
      simp only [Operation.effect, counted, Except.map, Except.ok.injEq] at described
      subst described
      refine ⟨taken, Operation.takesEffect_of_replaces ?_ replaces⟩
      simp [Operation.yield, outlook, combined, Except.toOption]

theorem exchanges_of_perform {machine : Machine} {frame : Frame} {operation : Operation}
    {operand : UInt8} {effect : Effect} {after : Stack}
    (described : operation.effect operand = .ok effect)
    (performed : machine.perform frame operation operand = .next after) :
    machine.stack.Exchanges after effect := by
  rcases takesEffect_of_perform (fun _ => .ok 0) described performed with ⟨taken, takes⟩
  exact takes.exchanges

/-- An operation that goes on has found what its operand names. -/
theorem admitsOperand_of_perform {machine : Machine} {frame : Frame} {operation : Operation}
    {operand : UInt8} {after : Stack}
    (performed : machine.perform frame operation operand = .next after) :
    machine.program.admitsOperand machine.context.bounds (machine.stack.size - frame.base)
      operation operand = true := by
  cases operation with
  | constant =>
      rcases replaces_of_pushing performed with ⟨word, found, _⟩
      have present := Program.constant_eq_ok_iff.mp found
      simpa [Program.admitsOperand] using (Array.getElem?_eq_some_iff.mp present).1
  | stack =>
      rcases replaces_of_pushing performed with ⟨word, found, _⟩
      have inside := (List.getElem?_eq_some_iff.mp (Stack.get_eq_ok_iff.mp found)).1
      simp only [Program.admitsOperand, decide_eq_true_eq, Stack.length_toList] at inside ⊢
      omega
  | context =>
      rcases replaces_of_pushing performed with ⟨word, found, _⟩
      simp [Program.admitsOperand, Context.contains_bounds, Context.cell_eq_ok_iff.mp found]
  | _ => rfl

end Machine

namespace Evaluation

variable {σ : Type} {host : Host σ} {evaluation after : Evaluation} {state state' : σ}

/-- How an instruction that the machine has trapped on is resolved or refused. -/
inductive Resolves (host : Host σ) (evaluation : Evaluation) (state : σ)
    (instruction : Instruction) : Except Failure Unit → Evaluation → σ → Prop where
  | read {key value : Word} {below stack : Stack} {answered : σ}
      (assigned : instruction.operation = .ok .get)
      (popped : evaluation.machine.stack.pop = .ok (key, below))
      (answer : host.get state evaluation.space key = (.ok value, answered))
      (pushed : below.push value = .ok stack) :
      Resolves host evaluation state instruction (.ok ()) (evaluation.withStack stack)
        (host.observe answered (.get evaluation.space key value))
  | unread {key : Word} {below : Stack} {failure : Failure} {answered : σ}
      (assigned : instruction.operation = .ok .get)
      (popped : evaluation.machine.stack.pop = .ok (key, below))
      (answer : host.get state evaluation.space key = (.error failure, answered)) :
      Resolves host evaluation state instruction (.error failure) (evaluation.withStack below)
        answered
  | written {key value : Word} {keyed below : Stack} {answered : σ}
      (assigned : instruction.operation = .ok .set)
      (valuePopped : evaluation.machine.stack.pop = .ok (value, keyed))
      (keyPopped : keyed.pop = .ok (key, below))
      (answer : host.set state evaluation.space key value = (.ok (), answered)) :
      Resolves host evaluation state instruction (.ok ()) (evaluation.withStack below)
        (host.observe answered (.set evaluation.space key value))
  | unwritten {key value : Word} {keyed below : Stack} {failure : Failure} {answered : σ}
      (assigned : instruction.operation = .ok .set)
      (valuePopped : evaluation.machine.stack.pop = .ok (value, keyed))
      (keyPopped : keyed.pop = .ok (key, below))
      (answer : host.set state evaluation.space key value = (.error failure, answered)) :
      Resolves host evaluation state instruction (.error failure) (evaluation.withStack below)
        answered
  | shown {style : DebugStyle} {result : Except Failure Unit} {answered : σ}
      (assigned : instruction.operation = .ok .debug)
      (named : DebugStyle.ofNat? instruction.operand.toNat = some style)
      (answer : host.debug state style evaluation.machine = (result, answered)) :
      Resolves host evaluation state instruction result evaluation answered

variable {instruction : Instruction} {operation : Operation} {effect : Effect}
  {result : Except Failure Unit}

theorem resolves_of_resolveGet (assigned : instruction.operation = .ok .get)
    (enough : 1 ≤ evaluation.machine.stack.size)
    (resolved : evaluation.resolveGet host state = (result, after, state')) :
    evaluation.Resolves host state instruction result after state' := by
  unfold resolveGet at resolved
  split at resolved
  · rename_i popped
    have empty := (Stack.pop_eq_error_iff.mp popped).1
    omega
  · rename_i key below popped
    split at resolved
    · rename_i answer
      cases resolved
      exact .unread assigned popped answer
    · rename_i answer
      split at resolved
      · -- The key has left room for the value.
        rename_i pushed
        have sizes := (Stack.exchanges_of_pop popped).size
        have limits := (Stack.exchanges_of_pop popped).limit
        have fits : evaluation.machine.stack.size ≤ evaluation.machine.stack.limit :=
          evaluation.machine.stack.size_le_limit
        have full := (Stack.push_eq_error_iff.mp pushed).1
        simp only at sizes
        omega
      · rename_i pushed
        cases resolved
        exact .read assigned popped answer pushed

theorem resolves_of_resolveSet (assigned : instruction.operation = .ok .set)
    (enough : 2 ≤ evaluation.machine.stack.size)
    (resolved : evaluation.resolveSet host state = (result, after, state')) :
    evaluation.Resolves host state instruction result after state' := by
  unfold resolveSet at resolved
  split at resolved
  · rename_i popped
    have empty := (Stack.pop_eq_error_iff.mp popped).1
    omega
  · rename_i value keyed valuePopped
    split at resolved
    · rename_i keyPopped
      have sizes := (Stack.exchanges_of_pop valuePopped).size
      have empty := (Stack.pop_eq_error_iff.mp keyPopped).1
      simp only at sizes
      omega
    · rename_i keyPopped
      split at resolved
      · rename_i answer
        cases resolved
        exact .unwritten assigned valuePopped keyPopped answer
      · rename_i answer
        cases resolved
        exact .written assigned valuePopped keyPopped answer

/-- With the values of its effect there, resolving an instruction is up to the host. -/
theorem resolves_of_resolve (assigned : instruction.operation = .ok operation)
    (ofHost : operation = .debug ∨ operation = .get ∨ operation = .set)
    (described : operation.effect instruction.operand = .ok effect)
    (enough : effect.pops ≤ evaluation.machine.stack.size)
    (resolved : evaluation.resolve host instruction state = (result, after, state')) :
    evaluation.Resolves host state instruction result after state' := by
  unfold resolve at resolved
  rw [Instruction.operation_eq_ok_iff.mp assigned] at resolved
  rcases ofHost with rfl | rfl | rfl
  · simp only [Operation.effect] at described
    cases named : DebugStyle.ofNat? instruction.operand.toNat with
    | none => simp [named] at described
    | some style =>
        simp only [resolveDebug, named] at resolved
        cases resolved
        exact .shown assigned named rfl
  · cases described
    exact resolves_of_resolveGet assigned enough resolved
  · cases described
    exact resolves_of_resolveSet assigned enough resolved

/-- An instruction that the host resolved takes the effect that it announces. -/
theorem Resolves.takesEffect
    (resolves : evaluation.Resolves host state instruction (.ok ()) after state')
    (assigned : instruction.operation = .ok operation)
    (described : operation.effect instruction.operand = .ok effect) (outlook : Outlook)
    (answered : ∀ key, outlook.answer key = (host.get state evaluation.space key).1) :
    ∃ stack taken, after = evaluation.withStack stack ∧
      operation.TakesEffect instruction.operand outlook effect taken evaluation.machine.stack
        stack := by
  cases resolves with
  | @read key value _ stack _ isGet popped answer pushed =>
      cases assigned.symm.trans isGet
      cases described
      have replaces := (Stack.replaces_of_pop popped).trans (Stack.replaces_of_push pushed)
      refine ⟨stack, [key], rfl, Operation.takesEffect_of_replaces ?_ replaces⟩
      simp [Operation.yield, answered, answer, Except.toOption]
  | @written key value _ below _ isSet valuePopped keyPopped answer =>
      cases assigned.symm.trans isSet
      cases described
      exact ⟨below, [key, value], rfl, rfl, rfl,
        (Stack.replaces_of_pop valuePopped).trans (Stack.replaces_of_pop keyPopped)⟩
  | shown isDebug named answer =>
      cases assigned.symm.trans isDebug
      simp only [Operation.effect, named, Option.isNone_some, Bool.false_eq_true, ↓reduceIte,
        Except.ok.injEq] at described
      cases described
      exact ⟨_, [], rfl, rfl, rfl, .refl _⟩

theorem Resolves.exchanges
    (resolves : evaluation.Resolves host state instruction (.ok ()) after state')
    (assigned : instruction.operation = .ok operation)
    (described : operation.effect instruction.operand = .ok effect) :
    ∃ stack, after = evaluation.withStack stack ∧
      evaluation.machine.stack.Exchanges stack effect := by
  -- The counts do not depend on what else the operation looks at.
  rcases resolves.takesEffect assigned described ⟨#[], {}, .standard, none, _⟩ (fun _ => rfl) with
    ⟨stack, _, rfl, takes⟩
  exact ⟨stack, rfl, takes.exchanges⟩

/-- An instruction that was refused has taken no more values than its effect announces. -/
theorem Resolves.took {failure : Failure}
    (resolves : evaluation.Resolves host state instruction (.error failure) after state')
    (assigned : instruction.operation = .ok operation)
    (described : operation.effect instruction.operand = .ok effect) :
    ∃ stack, after = evaluation.withStack stack ∧
      ∃ taken ≤ effect.pops, evaluation.machine.stack.Exchanges stack ⟨taken, 0⟩ := by
  cases resolves with
  | unread isGet popped answer =>
      cases assigned.symm.trans isGet
      cases described
      exact ⟨_, rfl, 1, Nat.le_refl 1, Stack.exchanges_of_pop popped⟩
  | unwritten isSet valuePopped keyPopped answer =>
      cases assigned.symm.trans isSet
      cases described
      exact ⟨_, rfl, 2, Nat.le_refl 2,
        (Stack.exchanges_of_pop valuePopped).trans (Stack.exchanges_of_pop keyPopped)⟩
  | shown => exact ⟨_, rfl, 0, Nat.zero_le _, .refl _⟩

end Evaluation

end StackCert
