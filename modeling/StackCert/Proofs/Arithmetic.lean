import Mathlib.Algebra.Ring.Nat
import StackCert.Proofs.Advance
import StackCert.Proofs.Reduction

/-!
# Checked arithmetic is exact

The checked reducers fold their values from the first one on and stop at the first
step that has no result. `Word.Computes` ties an operation on words to one on
numbers, with the condition under which it has a result. Of a fold this gives the
fold of the numbers, as long as the condition holds at each step (`Admitted`). What
that comes to is worked out for each operation over unbounded numbers. Sums grow, so
the last one decides. Differences fall, and subtracting one by one is subtracting
the sum. Dividing one by one is dividing by the product, rounded down once. Products
and powers have to be bounded at each step, because a zero that comes later does not
undo an overflow.

`Machine.Yields` and `Machine.Declines` carry this over to a machine with the values
on top of its stack, and to the step that runs the instruction.
-/

namespace StackCert

namespace Word

theorem ofNat?_of_lt {number : Nat} (small : number < 2 ^ 256) :
    ∃ word, ofNat? number = some word ∧ word.toNat = number := by
  have back : (BitVec.ofNat 256 number).toNat = number := by
    rw [BitVec.toNat_ofNat, Nat.mod_eq_of_lt small]
  exact ⟨_, if_pos back, back⟩

theorem ofNat?_of_not_lt {number : Nat} (large : ¬number < 2 ^ 256) : ofNat? number = none := by
  apply if_neg
  intro back
  rw [← back] at large
  exact large (BitVec.ofNat 256 number).isLt

theorem ofNat?_toNat (word : Word) : ofNat? word.toNat = some word := by
  rcases ofNat?_of_lt word.isLt with ⟨back, found, same⟩
  rw [found, BitVec.eq_of_toNat_eq same]

theorem eq_zero_iff_toNat {word : Word} : word = 0 ↔ word.toNat = 0 := by
  rw [← BitVec.toNat_inj]
  rfl

/-- A base above one outgrows the words at exponent 256. -/
theorem le_pow_of_le {base exponent : Nat} (above : 1 < base) (large : 256 ≤ exponent) :
    2 ^ 256 ≤ base ^ exponent :=
  calc 2 ^ 256 ≤ base ^ 256 := Nat.pow_le_pow_left above 256
    _ ≤ base ^ exponent := Nat.pow_le_pow_right (by omega) large

/-- Powers are settled early in some cases, as the exact power would be. -/
theorem pow?_eq_ofNat? (base exponent : Word) :
    base.pow? exponent = ofNat? (base.toNat ^ exponent.toNat) := by
  unfold pow?
  split
  · rename_i isZero
    rw [isZero]
    exact (ofNat?_toNat 1).symm
  rename_i nonzero
  have positive : exponent.toNat ≠ 0 := mt eq_zero_iff_toNat.mpr nonzero
  split
  · rename_i small
    have trivialBase : base.toNat = 0 ∨ base.toNat = 1 := by
      have : base.toNat ≤ 1 := small
      omega
    have same : base.toNat ^ exponent.toNat = base.toNat := by
      rcases trivialBase with isZero | isOne
      · rw [isZero, Nat.zero_pow (Nat.pos_of_ne_zero positive)]
      · rw [isOne, Nat.one_pow]
    rw [same, ofNat?_toNat]
  · rename_i above
    split
    · rfl
    · rename_i large
      symm
      apply ofNat?_of_not_lt
      apply Nat.not_lt.mpr
      exact le_pow_of_le (Nat.lt_of_not_le above) (Nat.le_of_not_lt large)

/--
An operation on words is exact where a condition on their numbers holds, and has no
result elsewhere.
-/
structure Computes (operation? : Word → Word → Option Word) (admits : Nat → Nat → Prop)
    (exact : Nat → Nat → Nat) : Prop where
  value : ∀ {left right : Word}, admits left.toNat right.toNat →
    ∃ result, operation? left right = some result ∧
      result.toNat = exact left.toNat right.toNat
  missing : ∀ {left right : Word}, ¬admits left.toNat right.toNat →
    operation? left right = none

theorem computes_ofNat? (exact : Nat → Nat → Nat) :
    Computes (fun left right => ofNat? (exact left.toNat right.toNat))
      (fun left right => exact left right < 2 ^ 256) exact :=
  ⟨ofNat?_of_lt, ofNat?_of_not_lt⟩

theorem computes_add : Computes add? (fun left right => left + right < 2 ^ 256) (· + ·) :=
  computes_ofNat? (· + ·)

theorem computes_mul : Computes mul? (fun left right => left * right < 2 ^ 256) (· * ·) :=
  computes_ofNat? (· * ·)

theorem computes_pow : Computes pow? (fun left right => left ^ right < 2 ^ 256) (· ^ ·) := by
  have same : pow? = fun left right => ofNat? (left.toNat ^ right.toNat) := by
    funext base exponent
    exact pow?_eq_ofNat? base exponent
  rw [same]
  exact computes_ofNat? (· ^ ·)

theorem computes_sub : Computes sub? (fun left right => right ≤ left) (· - ·) := by
  constructor
  · intro left right enough
    exact ⟨left - right, if_pos enough, BitVec.toNat_sub_of_le enough⟩
  · intro left right fewer
    exact if_neg fewer

theorem computes_div : Computes div? (fun _ right => right ≠ 0) (· / ·) := by
  constructor
  · intro left right nonzero
    exact ⟨left / right, if_neg (mt eq_zero_iff_toNat.mp nonzero), BitVec.toNat_udiv⟩
  · intro left right zero
    exact if_pos (eq_zero_iff_toNat.mpr (Decidable.not_not.mp zero))

theorem computes_mod : Computes mod? (fun _ right => right ≠ 0) (· % ·) := by
  constructor
  · intro left right nonzero
    exact ⟨left % right, if_neg (mt eq_zero_iff_toNat.mp nonzero), BitVec.toNat_umod⟩
  · intro left right zero
    exact if_pos (eq_zero_iff_toNat.mpr (Decidable.not_not.mp zero))

end Word

/-- A condition holds at each step of a fold from a first number on. -/
def Admitted (admits : Nat → Nat → Prop) (exact : Nat → Nat → Nat) : Nat → List Nat → Prop
  | _, [] => True
  | total, next :: rest => admits total next ∧ Admitted admits exact (exact total next) rest

section Folds

variable {exact : Nat → Nat → Nat} {total : Nat} {rest : List Nat}

/-- Results that have to be bounded at each step are the folds of the beginnings. -/
theorem admitted_bound_iff {bound : Nat} (small : total < bound) :
    Admitted (fun left right => exact left right < bound) exact total rest ↔
      ∀ count ≤ rest.length, (rest.take count).foldl exact total < bound := by
  induction rest generalizing total with
  | nil => simp [Admitted, small]
  | cons next rest ih =>
      constructor
      · rintro ⟨bounded, admitted⟩ count within
        cases count with
        | zero => exact small -- the empty beginning gives the total itself
        | succ count => exact (ih bounded).mp admitted count (Nat.le_of_succ_le_succ within)
      · intro bounded
        have first : exact total next < bound := by
          simpa using bounded 1 (by simp)
        refine ⟨first, (ih first).mpr ?_⟩
        intro count within
        exact bounded (count + 1) (Nat.succ_le_succ within)

theorem admitted_right_iff {allowed : Nat → Prop} :
    Admitted (fun _ right => allowed right) exact total rest ↔ ∀ next ∈ rest, allowed next := by
  induction rest generalizing total with
  | nil => simp [Admitted]
  | cons next rest ih => simp [Admitted, ih]

theorem foldl_add_eq : rest.foldl (· + ·) total = total + rest.sum := by
  induction rest generalizing total with
  | nil => rfl
  | cons next rest ih => rw [List.foldl_cons, ih, List.sum_cons, Nat.add_assoc]

theorem foldl_mul_eq : rest.foldl (· * ·) total = total * rest.prod := by
  induction rest generalizing total with
  | nil => exact (Nat.mul_one total).symm
  | cons next rest ih => rw [List.foldl_cons, ih, List.prod_cons, Nat.mul_assoc]

/-- Sums only grow, so that all of them are bounded if the last one is. -/
theorem admitted_add_iff {bound : Nat} (small : total < bound) :
    Admitted (fun left right => left + right < bound) (· + ·) total rest ↔
      total + rest.sum < bound := by
  induction rest generalizing total with
  | nil => simpa [Admitted] using small
  | cons next rest ih =>
      rw [List.sum_cons, ← Nat.add_assoc]
      constructor
      · rintro ⟨bounded, admitted⟩
        exact (ih bounded).mp admitted
      · intro bounded
        have first : total + next < bound := Nat.lt_of_le_of_lt (Nat.le_add_right _ _) bounded
        exact ⟨first, (ih first).mpr bounded⟩

theorem admitted_mul_iff {bound : Nat} (small : total < bound) :
    Admitted (fun left right => left * right < bound) (· * ·) total rest ↔
      ∀ count ≤ rest.length, total * (rest.take count).prod < bound := by
  rw [admitted_bound_iff small]
  simp only [foldl_mul_eq]

theorem foldl_sub_eq : rest.foldl (· - ·) total = total - rest.sum := by
  induction rest generalizing total with
  | nil => rfl
  | cons next rest ih => rw [List.foldl_cons, ih, List.sum_cons, Nat.sub_sub]

theorem admitted_sub_iff :
    Admitted (fun left right => right ≤ left) (· - ·) total rest ↔ rest.sum ≤ total := by
  induction rest generalizing total with
  | nil => simp [Admitted]
  | cons next rest ih =>
      rw [Admitted, ih, List.sum_cons]
      omega

theorem foldl_div_eq : rest.foldl (· / ·) total = total / rest.prod := by
  induction rest generalizing total with
  | nil => exact (Nat.div_one total).symm
  | cons next rest ih => rw [List.foldl_cons, ih, List.prod_cons, Nat.div_div_eq_div_mul]

end Folds

namespace Reducer

/-- The arity of the reducers that take as many values as their operand says. -/
theorem arity_of_count {operand : UInt8} {count : Nat} (isCount : operand.toNat = count + 1) :
    (if operand = 0 then .error .operandOutOfBounds else .ok operand.toNat) =
      (.ok (count + 1) : Except Failure Nat) := by
  rw [if_neg, isCount]
  rintro rfl
  simp at isCount

variable {operation? : Word → Word → Option Word} {admits : Nat → Nat → Prop}
  {exact : Nat → Nat → Nat} {failure : Failure}

theorem fold_of_some {first next between : Word} {rest : List Word}
    (found : operation? first next = some between) :
    fold (fun left right => valueOr failure (operation? left right)) (first :: next :: rest) =
      fold (fun left right => valueOr failure (operation? left right)) (between :: rest) := by
  simp [fold, found, valueOr, bind, Except.bind]

theorem fold_of_none {first next : Word} {rest : List Word}
    (missing : operation? first next = none) :
    fold (fun left right => valueOr failure (operation? left right)) (first :: next :: rest) =
      .error failure := by
  simp [fold, missing, valueOr, bind, Except.bind]

/-- A checked fold that is admitted at each step is the fold of the numbers. -/
theorem fold_of_admitted (computes : Word.Computes operation? admits exact) {first : Word}
    {rest : List Word}
    (admitted : Admitted admits exact first.toNat (rest.map BitVec.toNat)) :
    ∃ result, fold (fun left right => valueOr failure (operation? left right)) (first :: rest) =
        .ok result ∧
      result.toNat = (rest.map BitVec.toNat).foldl exact first.toNat := by
  induction rest generalizing first with
  | nil => exact ⟨first, rfl, rfl⟩
  | cons next rest ih =>
      rcases admitted with ⟨here, later⟩
      rcases computes.value here with ⟨between, found, same⟩
      rw [← same] at later
      rcases ih later with ⟨result, folded, isFold⟩
      refine ⟨result, (fold_of_some found).trans folded, ?_⟩
      rw [isFold, same]
      rfl

theorem fold_of_not_admitted (computes : Word.Computes operation? admits exact) {first : Word}
    {rest : List Word}
    (refused : ¬Admitted admits exact first.toNat (rest.map BitVec.toNat)) :
    fold (fun left right => valueOr failure (operation? left right)) (first :: rest) =
      .error failure := by
  induction rest generalizing first with
  | nil => exact absurd trivial refused
  | cons next rest ih =>
      -- either this step has no result, or what it leaves to be folded is not admitted
      by_cases here : admits first.toNat next.toNat
      · rcases computes.value here with ⟨between, found, same⟩
        have later : ¬Admitted admits exact between.toNat (rest.map BitVec.toNat) := by
          intro admitted
          rw [same] at admitted
          exact refused ⟨here, admitted⟩
        exact (fold_of_some found).trans (ih later)
      · exact fold_of_none (computes.missing here)

end Reducer

theorem Stack.size_eq_of_toList {stack : Stack} {kept words : List Word}
    (values : stack.toList = kept ++ words) : stack.size = kept.length + words.length := by
  rw [← length_toList, values, List.length_append]

namespace Machine

/-- A running machine whose next instruction is a reducer, in its innermost frame. -/
structure Faces (machine : Machine) (frame : Frame) (callers : List Frame) (reducer : Reducer)
    (operand : UInt8) : Prop where
  running : machine.status = none
  frames : machine.frames = frame :: callers
  held : machine.program.Holds frame.source frame.position
    ⟨(Operation.reduce reducer).opcode, operand⟩

/--
A reducer leaves the values that are kept, with a word of the given number on top. A
step that comes to it with its values in the frame goes on behind it.
-/
def Yields (machine : Machine) (frame : Frame) (reducer : Reducer) (operand : UInt8)
    (kept : List Word) (number : Nat) : Prop :=
  ∃ stack result, result.toNat = number ∧ stack.toList = kept ++ [result] ∧
    stack.limit = machine.stack.limit ∧
    machine.perform frame (.reduce reducer) operand = .next stack ∧
    ∀ callers, machine.Faces frame callers reducer operand → frame.base ≤ kept.length →
      machine.step = (.continued, { machine with frames := frame.advance :: callers, stack })

/-- A reducer fails and leaves the stack as it is, and so does a step that comes to it. -/
def Declines (machine : Machine) (frame : Frame) (reducer : Reducer) (operand : UInt8)
    (kept : List Word) (failure : Failure) : Prop :=
  machine.perform frame (.reduce reducer) operand = .halt machine.stack failure ∧
    ∀ callers, machine.Faces frame callers reducer operand → frame.base ≤ kept.length →
      machine.step = (.exited (.failed failure), machine.exit (.failed failure))

/-- A reducer yields a number if a condition holds, and fails if it does not. -/
def Decides (machine : Machine) (frame : Frame) (reducer : Reducer) (operand : UInt8)
    (kept : List Word) (condition : Prop) (number : Nat) (failure : Failure) : Prop :=
  (condition → machine.Yields frame reducer operand kept number) ∧
    (¬condition → machine.Declines frame reducer operand kept failure)

variable {machine : Machine} {frame : Frame} {callers : List Frame} {reducer : Reducer}
  {operand : UInt8} {kept words : List Word}

theorem Faces.fetches (faces : machine.Faces frame callers reducer operand)
    (counted : reducer.arity operand = .ok words.length)
    (values : machine.stack.toList = kept ++ words) (within : frame.base ≤ kept.length) :
    machine.Fetches frame callers ⟨(Operation.reduce reducer).opcode, operand⟩ (.reduce reducer)
      ⟨words.length, 1⟩ := by
  refine ⟨faces.frames, faces.held, ?_, ?_, ?_⟩
  · exact Operation.assigned _ operand
  · simp [Operation.effect, counted, Except.map]
  · have size := Stack.size_eq_of_toList values
    simp only
    omega

/-- A reducer with its values on top runs on just these. -/
theorem perform_reduce (frame : Frame) (counted : reducer.arity operand = .ok words.length)
    (values : machine.stack.toList = kept ++ words) :
    ∃ below : Stack, below.toList = kept ∧ below.limit = machine.stack.limit ∧
      below.size < below.limit ∧
      machine.perform frame (.reduce reducer) operand =
        match reducer.combine machine.layout operand words with
        | .error failure => .halt machine.stack failure
        | .ok word => pushing below (.ok word) := by
  have size := Stack.size_eq_of_toList values
  have enough : words.length ≤ machine.stack.size := by omega
  rcases Stack.collapse_of_enough (Reducer.arity_pos counted) enough with
    ⟨taken, below, _, topped, discarded, room⟩
  have rest : machine.stack.size - words.length = kept.length := by omega
  have isTaken : taken = words := by
    rw [(Stack.top_eq_ok_iff.mp topped).2, rest, values, List.drop_left]
  rcases Stack.discard_eq_ok_iff.mp discarded with ⟨_, left, limit⟩
  rw [rest, values, List.take_left] at left
  rw [isTaken] at topped
  exact ⟨below, left, limit, room, reducing_of_combine counted topped discarded room⟩

theorem yields_of_combine (counted : reducer.arity operand = .ok words.length)
    (values : machine.stack.toList = kept ++ words) {result : Word}
    (combined : reducer.combine machine.layout operand words = .ok result) :
    machine.Yields frame reducer operand kept result.toNat := by
  rcases perform_reduce frame counted values with ⟨below, left, limit, room, performed⟩
  rcases pushed_of_room room result with ⟨stack, went, behind, sameLimit⟩
  rw [combined] at performed
  have next : machine.perform frame (.reduce reducer) operand = .next stack :=
    performed.trans went
  rw [left] at behind
  refine ⟨stack, result, rfl, behind, sameLimit.trans limit, next, ?_⟩
  intro callers faces within
  rw [step_of_fetches faces.running (faces.fetches counted values within), next]
  rfl

theorem declines_of_combine (counted : reducer.arity operand = .ok words.length)
    (values : machine.stack.toList = kept ++ words) {failure : Failure}
    (combined : reducer.combine machine.layout operand words = .error failure) :
    machine.Declines frame reducer operand kept failure := by
  rcases perform_reduce frame counted values with ⟨below, _, _, _, performed⟩
  rw [combined] at performed
  refine ⟨performed, ?_⟩
  intro callers faces within
  rw [step_of_fetches faces.running (faces.fetches counted values within), performed]
  rfl

/--
A reducer that folds an operation decides by a condition that says the same as
being admitted at each step.
-/
theorem decides_of_computes {operation? : Word → Word → Option Word}
    {admits : Nat → Nat → Prop} {exact : Nat → Nat → Nat} {failure : Failure}
    {condition : Prop} {number : Nat} {first : Word} {rest : List Word}
    (computes : Word.Computes operation? admits exact)
    (counted : reducer.arity operand = .ok (rest.length + 1))
    (values : machine.stack.toList = kept ++ first :: rest)
    (folds : reducer.combine machine.layout operand (first :: rest) =
      Reducer.fold (fun left right => Reducer.valueOr failure (operation? left right))
        (first :: rest))
    (settles : Admitted admits exact first.toNat (rest.map BitVec.toNat) ↔ condition)
    (comes : (rest.map BitVec.toNat).foldl exact first.toNat = number) :
    machine.Decides frame reducer operand kept condition number failure := by
  constructor
  · intro holds
    rcases Reducer.fold_of_admitted computes (settles.mpr holds) with ⟨result, folded, isFold⟩
    rw [← comes, ← isFold]
    exact yields_of_combine counted values (folds.trans folded)
  · intro fails
    apply declines_of_combine counted values
    rw [folds]
    exact Reducer.fold_of_not_admitted computes (mt settles.mp fails)

/--
The checked reducers over values on top of a stack, with their number as operand,
against unbounded numbers. Addition gives the sum if it fits in a word, subtraction
the difference between the first value and the sum of the others if it is not
negative. Division gives the quotient by the product of the others, rounded down,
and the remainder is taken one after another, as long as none of the others is
zero. Multiplication and powers are exact if every beginning fits in a word.
-/
theorem checked_reducers_are_exact (machine : Machine) (frame : Frame) {operand : UInt8}
    {kept : List Word} {first : Word} {rest : List Word}
    (values : machine.stack.toList = kept ++ first :: rest)
    (count : operand.toNat = rest.length + 1) :
    let head := first.toNat
    let tail := rest.map BitVec.toNat
    machine.Decides frame .add operand kept (head + tail.sum < 2 ^ 256) (head + tail.sum)
      .overflow ∧
    machine.Decides frame .sub operand kept (tail.sum ≤ head) (head - tail.sum) .overflow ∧
    machine.Decides frame .mul operand kept
      (∀ count ≤ tail.length, head * (tail.take count).prod < 2 ^ 256) (head * tail.prod)
      .overflow ∧
    machine.Decides frame .div operand kept (∀ next ∈ tail, next ≠ 0) (head / tail.prod)
      .divisionByZero ∧
    machine.Decides frame .mod operand kept (∀ next ∈ tail, next ≠ 0)
      (tail.foldl (· % ·) head) .divisionByZero ∧
    machine.Decides frame .exp operand kept
      (∀ count ≤ tail.length, (tail.take count).foldl (· ^ ·) head < 2 ^ 256)
      (tail.foldl (· ^ ·) head) .overflow := by
  intro head tail
  have counted := Reducer.arity_of_count count
  refine ⟨?_, ?_, ?_, ?_, ?_, ?_⟩
  · exact decides_of_computes Word.computes_add counted values rfl
      (admitted_add_iff first.isLt) foldl_add_eq
  · exact decides_of_computes Word.computes_sub counted values rfl admitted_sub_iff foldl_sub_eq
  · exact decides_of_computes Word.computes_mul counted values rfl
      (admitted_mul_iff first.isLt) foldl_mul_eq
  · exact decides_of_computes Word.computes_div counted values rfl admitted_right_iff foldl_div_eq
  · exact decides_of_computes Word.computes_mod counted values rfl admitted_right_iff rfl
  · exact decides_of_computes Word.computes_pow counted values rfl
      (admitted_bound_iff first.isLt) rfl

/-- A product with a zero at its end has overflown before, while the difference is exact. -/
theorem checked_reducers_are_exact_late_zero :
    let frame : Frame := ⟨0, 0, 1, 1⟩
    let machine : Machine :=
      { Machine.start ⟨#[#[0x12, 3]], #[]⟩ {} 0 1 4 .standard with
        frames := [frame], stack := ⟨#[9, .largest, 2, 0], 4, by decide⟩ }
    machine.step = (.exited (.failed .overflow), machine.exit (.failed .overflow)) ∧
      machine.Yields frame .sub 3 [9] (2 ^ 256 - 3) := by
  intro frame machine
  have values : machine.stack.toList = [9] ++ Word.largest :: [2, 0] := rfl
  have count : (3 : UInt8).toNat = ([2, 0] : List Word).length + 1 := rfl
  rcases checked_reducers_are_exact machine frame values count with ⟨_, sub, mul, _⟩
  have large : ¬∀ count ≤ [2, 0].length,
      Word.largest.toNat * ([2, 0].take count).prod < 2 ^ 256 := by
    intro bounded
    exact absurd (bounded 1 (by decide)) (by decide)
  have faces : machine.Faces frame [] .mul 3 := ⟨rfl, rfl, ⟨_, rfl, rfl⟩⟩
  exact ⟨(mul.2 large).2 [] faces (by decide), sub.1 (by decide)⟩

end Machine

end StackCert
