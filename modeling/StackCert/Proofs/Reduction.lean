import Mathlib.Data.List.Basic
import StackCert.Proofs.Fields
import StackCert.Reducer

/-!
# When reducers fail

A reducer that is given as many values as it asks for fails for one of two
reasons: the exact result of checked arithmetic is not a word, or a divisor is
zero (`Reducer.Aborts`). Besides, an operation on tier reports may have no result
under the layout (`Reducer.Undefined`), and the run breaks off in it. Nothing else
can go wrong. The operations on tier reports all have a result as long as the fields
of the layout are narrower than a word, as with every layout that `Layout.ofWidth?`
admits.
-/

namespace StackCert

namespace Layout

/-- Every operation on tier reports has a result. -/
structure Complete (layout : Layout) : Prop where
  elapsed : ∀ newer older, ∃ report, layout.elapsed? newer older = some report
  setTiers : ∀ report first last time, ∃ after,
    layout.setTiers? report first last time = some after
  select : ∀ logic mode reference reports, ∃ report,
    layout.select? logic mode reference reports = some report

variable {layout : Layout}

/-- Fields that are narrower than a word are enough for every operation to have a result. -/
theorem complete_of_narrow (narrow : layout.fieldBits < 256) : layout.Complete where
  elapsed newer older := ⟨_, elapsed?_of_narrow narrow newer older⟩
  setTiers report first last time := ⟨_, setTiers?_of_narrow narrow report first last time⟩
  select logic mode reference reports := ⟨_, select?_of_narrow narrow logic mode reference reports⟩

theorem Supported.complete (supported : layout.Supported) : layout.Complete :=
  complete_of_narrow supported.narrow

end Layout

namespace Reducer

theorem eq_of_valueOr {failure failure' : Failure} {value? : Option Word}
    (failed : valueOr failure value? = .error failure') : failure' = failure := by
  cases value? with
  | none => exact (Except.error.inj failed).symm
  | some word => simp [valueOr] at failed

theorem eq_none_of_valueOr {failure failure' : Failure} {value? : Option Word}
    (failed : valueOr failure value? = .error failure') : value? = none := by
  cases value? with
  | none => rfl
  | some word => simp [valueOr] at failed

/-- Folding at least one value fails only where a step does. -/
theorem step_of_fold {step : Word → Word → Except Failure Word} {words : List Word}
    {failure : Failure} (nonempty : words ≠ []) (failed : fold step words = .error failure) :
    ∃ left right, step left right = .error failure := by
  rcases List.exists_cons_of_ne_nil nonempty with ⟨word, rest, rfl⟩
  change rest.foldlM step word = .error failure at failed
  clear nonempty
  induction rest generalizing word with
  | nil => simp [pure, Except.pure] at failed
  | cons next rest ih =>
      rw [List.foldlM_cons] at failed
      cases stepped : step word next with
      | error other =>
          simp only [stepped, bind, Except.bind, Except.error.injEq] at failed
          exact ⟨word, next, failed ▸ stepped⟩
      | ok result =>
          simp only [stepped, bind, Except.bind] at failed
          exact ih result failed

theorem eq_of_fold_valueOr {operation? : Word → Word → Option Word} {words : List Word}
    {failure failure' : Failure} (nonempty : words ≠ [])
    (failed : fold (fun left right => valueOr failure (operation? left right)) words =
      .error failure') : failure' = failure := by
  rcases step_of_fold nonempty failed with ⟨left, right, stepFailed⟩
  exact eq_of_valueOr stepFailed

theorem fold_ok_ne_error {operation : Word → Word → Word} {words : List Word} {failure : Failure}
    (nonempty : words ≠ []) :
    fold (fun left right => .ok (operation left right)) words ≠ .error failure := by
  intro failed
  rcases step_of_fold nonempty failed with ⟨left, right, stepFailed⟩
  simp at stepFailed

theorem arity_pos {reducer : Reducer} {operand : UInt8} {count : Nat}
    (counted : reducer.arity operand = .ok count) : 0 < count := by
  cases reducer with
  | isZero | equalTo | lessThan | greaterThan | saturatingDiff | eagerIf =>
      cases counted
      decide
  | selectLte =>
      simp only [arity] at counted
      split at counted
      · simp at counted
      · cases counted
        exact Nat.succ_pos _
  | updateTimes =>
      simp only [arity] at counted
      split at counted
      · simp at counted
      · cases counted
        decide
  | _ =>
      simp only [arity] at counted
      split at counted
      · simp at counted
      · rename_i nonzero
        cases counted
        exact Nat.pos_of_ne_zero fun zero => nonzero (UInt8.toNat_inj.mp zero)

/-- A selection with all its reports is one that its operand describes. -/
theorem exists_selection {operand : UInt8} {words : List Word}
    (counted : arity .selectLte operand = .ok words.length) :
    ∃ logic mode reference, Logic.ofNat? (SelectOperand.ofByte operand).logic = some logic ∧
      Mode.ofNat? (SelectOperand.ofByte operand).mode = some mode ∧
      words.getLast? = some reference := by
  have nonempty : words ≠ [] := List.ne_nil_of_length_pos (arity_pos counted)
  have logicFound : ∃ logic, Logic.ofNat? (SelectOperand.ofByte operand).logic = some logic := by
    have small : (SelectOperand.ofByte operand).logic < 2 := by
      have := operand.toNat_lt
      simp only [SelectOperand.ofByte]
      omega
    match (SelectOperand.ofByte operand).logic, small with
    | 0, _ => exact ⟨_, rfl⟩
    | 1, _ => exact ⟨_, rfl⟩
  have modeFound : ∃ mode, Mode.ofNat? (SelectOperand.ofByte operand).mode = some mode := by
    cases found : Mode.ofNat? (SelectOperand.ofByte operand).mode with
    | none => simp [arity, found] at counted
    | some mode => exact ⟨mode, rfl⟩
  rcases logicFound with ⟨logic, logicFound⟩
  rcases modeFound with ⟨mode, modeFound⟩
  exact ⟨logic, mode, _, logicFound, modeFound, List.getLast?_eq_some_getLast nonempty⟩

/-- The failures that a reducer can meet although it has all its values. -/
inductive Aborts : Reducer → Failure → Prop where
  | overflow {reducer : Reducer} (checked : reducer ∈ [.add, .sub, .mul, .exp]) :
      Aborts reducer .overflow
  | divisionByZero {reducer : Reducer} (divides : reducer ∈ [.div, .mod]) :
      Aborts reducer .divisionByZero

/-- An operation on tier reports for which the layout has no result. -/
def Undefined (layout : Layout) (operand : UInt8) (reducer : Reducer) (words : List Word) : Prop :=
  match reducer, words with
  | .saturatingDiff, [newer, older] => layout.elapsed? newer older = none
  | .updateTimes, [report, time] =>
      let range := TierOperand.ofByte operand
      layout.setTiers? report range.first range.last time = none
  | .selectLte, words =>
      ∃ logic mode reference, Logic.ofNat? (SelectOperand.ofByte operand).logic = some logic ∧
        Mode.ofNat? (SelectOperand.ofByte operand).mode = some mode ∧
        words.getLast? = some reference ∧
        layout.select? logic mode reference words.dropLast = none
  | _, _ => False

variable {layout : Layout} {operand : UInt8} {reducer : Reducer} {words : List Word}
  {failure : Failure}

theorem not_complete_of_undefined (undefined : reducer.Undefined layout operand words) :
    ¬layout.Complete := by
  intro complete
  unfold Undefined at undefined
  split at undefined
  · rename_i newer older
    rcases complete.elapsed newer older with ⟨_, found⟩
    cases found.symm.trans undefined
  · rename_i report time
    rcases complete.setTiers report _ _ time with ⟨_, found⟩
    cases found.symm.trans undefined
  · rcases undefined with ⟨logic, mode, reference, _, _, _, unknown⟩
    rcases complete.select logic mode reference words.dropLast with ⟨_, found⟩
    cases found.symm.trans unknown
  · exact undefined

/-- Only fields as wide as a word leave an operation without a result. -/
theorem wide_of_undefined (undefined : reducer.Undefined layout operand words) :
    256 ≤ layout.fieldBits := by
  apply Nat.le_of_not_lt
  intro narrow
  exact not_complete_of_undefined undefined (Layout.complete_of_narrow narrow)

/-- A reducer with all its values aborts, or its layout leaves a report without a result. -/
theorem aborts_or_undefined_of_combine (counted : reducer.arity operand = .ok words.length)
    (failed : reducer.combine layout operand words = .error failure) :
    reducer.Aborts failure ∨ (failure = .undefined ∧ reducer.Undefined layout operand words) := by
  have nonempty : words ≠ [] := List.ne_nil_of_length_pos (arity_pos counted)
  cases reducer with
  | add | sub | mul | exp =>
      cases eq_of_fold_valueOr nonempty failed
      exact Or.inl (.overflow (by decide))
  | div | mod =>
      cases eq_of_fold_valueOr nonempty failed
      exact Or.inl (.divisionByZero (by decide))
  | min | max | saturatingAdd | saturatingSub | saturatingMul =>
      exact absurd failed (fold_ok_ne_error nonempty)
  | hash | any => simp [combine] at failed
  | isZero =>
      rcases List.length_eq_one_iff.mp (Except.ok.inj counted).symm with ⟨word, rfl⟩
      simp [combine] at failed
  | equalTo | lessThan | greaterThan =>
      rcases List.length_eq_two.mp (Except.ok.inj counted).symm with ⟨left, right, rfl⟩
      simp [combine] at failed
  | every =>
      simp only [combine, allOf, List.getLast?_eq_some_getLast nonempty, valueOr] at failed
      split at failed <;> simp at failed
  | eagerIf =>
      rcases List.length_eq_three.mp (Except.ok.inj counted).symm with
        ⟨condition, thenWord, elseWord, rfl⟩
      simp [combine] at failed
  | saturatingDiff =>
      rcases List.length_eq_two.mp (Except.ok.inj counted).symm with ⟨newer, older, rfl⟩
      exact Or.inr ⟨eq_of_valueOr failed, eq_none_of_valueOr failed⟩
  | selectLte =>
      rcases exists_selection counted with ⟨logic, mode, reference, isLogic, isMode, isLast⟩
      simp only [combine, select, isLogic, isMode, isLast] at failed
      exact Or.inr ⟨eq_of_valueOr failed, logic, mode, reference, isLogic, isMode, isLast,
        eq_none_of_valueOr failed⟩
  | updateTimes =>
      have two : words.length = 2 := by
        simp only [arity] at counted
        split at counted
        · simp at counted
        · exact (Except.ok.inj counted).symm
      rcases List.length_eq_two.mp two with ⟨report, time, rfl⟩
      exact Or.inr ⟨eq_of_valueOr failed, eq_none_of_valueOr failed⟩

theorem aborts_of_combine (supported : layout.Supported)
    (counted : reducer.arity operand = .ok words.length)
    (failed : reducer.combine layout operand words = .error failure) :
    reducer.Aborts failure := by
  rcases aborts_or_undefined_of_combine counted failed with aborts | ⟨_, undefined⟩
  · exact aborts
  · exact absurd supported.complete (not_complete_of_undefined undefined)

end Reducer

end StackCert
