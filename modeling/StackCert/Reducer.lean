import StackCert.Effect
import StackCert.Keccak

/-!
# What reducers compute

`Reducer.combine` gives the value that a reducer puts in place of the values it
takes, listed in the order they were pushed. Arithmetic folds from the first
pushed value on: `a b c` becomes `(a ∘ b) ∘ c`. An operation on tier reports that
has no result under the layout is `undefined`, which is not an overflow.
-/

namespace StackCert

namespace Reducer

/-- Combines values from the first one on; there has to be one. -/
def fold (step : Word → Word → Except Failure Word) : List Word → Except Failure Word
  | [] => .error .stackUnderflow
  | word :: words => words.foldlM step word

/-- The value of an operation, or the failure to report if it has none. -/
def valueOr (failure : Failure) : Option Word → Except Failure Word
  | some word => .ok word
  | none => .error failure

/-- The last value if none is zero, and zero otherwise. -/
def allOf (words : List Word) : Except Failure Word :=
  if words.any (· = 0) then .ok 0 else valueOr .stackUnderflow words.getLast?

/-- The last value that is not zero, and zero if there is none. -/
def anyOf (words : List Word) : Word := (words.reverse.find? (· ≠ 0)).getD 0

/-- The selection named by an operand over reports followed by the reference time. -/
def select (layout : Layout) (operand : UInt8) (words : List Word) : Except Failure Word :=
  let select := SelectOperand.ofByte operand
  match Logic.ofNat? select.logic, Mode.ofNat? select.mode, words.getLast? with
  | some logic, some mode, some reference =>
      valueOr .undefined (layout.select? logic mode reference words.dropLast)
  | _, _, _ => .error .operandOutOfBounds

/-- The value computed from the given ones, first pushed first. -/
def combine (layout : Layout) (operand : UInt8) (reducer : Reducer) (words : List Word) :
    Except Failure Word :=
  match reducer, words with
  | .hash, words => .ok (Keccak.digestWords words)
  | .add, words => fold (fun left right => valueOr .overflow (left.add? right)) words
  | .sub, words => fold (fun left right => valueOr .overflow (left.sub? right)) words
  | .mul, words => fold (fun left right => valueOr .overflow (left.mul? right)) words
  | .div, words => fold (fun left right => valueOr .divisionByZero (left.div? right)) words
  | .mod, words => fold (fun left right => valueOr .divisionByZero (left.mod? right)) words
  | .exp, words => fold (fun left right => valueOr .overflow (left.pow? right)) words
  | .min, words => fold (fun left right => .ok (left.lesser right)) words
  | .max, words => fold (fun left right => .ok (left.greater right)) words
  | .saturatingAdd, words => fold (fun left right => .ok (left.saturatingAdd right)) words
  | .saturatingSub, words => fold (fun left right => .ok (left.saturatingSub right)) words
  | .saturatingMul, words => fold (fun left right => .ok (left.saturatingMul right)) words
  | .isZero, [word] => .ok (.ofBool (word = 0))
  | .equalTo, [left, right] => .ok (.ofBool (left = right))
  | .lessThan, [left, right] => .ok (.ofBool (left < right))
  | .greaterThan, [left, right] => .ok (.ofBool (right < left))
  | .every, words => allOf words
  | .any, words => .ok (anyOf words)
  | .eagerIf, [condition, thenWord, elseWord] =>
      .ok (if condition = 0 then elseWord else thenWord)
  | .saturatingDiff, [newer, older] => valueOr .undefined (layout.elapsed? newer older)
  | .selectLte, words => select layout operand words
  | .updateTimes, [report, time] =>
      let range := TierOperand.ofByte operand
      valueOr .undefined (layout.setTiers? report range.first range.last time)
  | _, _ => .error .stackUnderflow

end Reducer

end StackCert
