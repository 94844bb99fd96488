import StackCert.Failure

/-!
# Meters

A meter counts the cost of an evaluation against a limit. Once a cost does not
fit, the meter is exhausted: it counts nothing more and reports the whole limit
as used.
-/

namespace StackCert

/-- A count of costs against a limit. -/
structure Meter where
  limit : UInt64
  /-- The costs counted so far, unless the meter is exhausted. -/
  spent? : Option UInt64
deriving DecidableEq, Repr

namespace Meter

/-- The meter that has counted nothing. -/
def ofLimit (limit : UInt64) : Meter := ⟨limit, some 0⟩

/-- The costs counted, or the whole limit once the meter is exhausted. -/
def used (meter : Meter) : UInt64 := meter.spent?.getD meter.limit

/-- What is left of the limit. -/
def remaining (meter : Meter) : UInt64 := meter.limit - meter.used

/-- Whether a cost did not fit. -/
def isExhausted (meter : Meter) : Bool := meter.spent?.isNone

/-- Exhausts the meter. -/
def exhaust (meter : Meter) : Except Failure Unit × Meter :=
  (.error .resourceExhausted, { meter with spent? := none })

/-- The sum of two numbers, unless it wraps around: a sum that does is below its terms. -/
def sum? (left right : UInt64) : Option UInt64 :=
  if left + right < left then none else some (left + right)

/-- Counts a cost if the limit leaves room for it, and exhausts the meter otherwise. -/
def record (meter : Meter) (cost : UInt64) : Except Failure Unit × Meter :=
  match meter.spent? with
  | none => meter.exhaust
  | some spent =>
      match sum? spent cost with
      | none => meter.exhaust
      | some spent =>
          if spent ≤ meter.limit then (.ok (), { meter with spent? := some spent })
          else meter.exhaust

/-- The cost of an instruction: one step, whatever it does. -/
def stepCost (_ : Instruction) : UInt64 := 1

/-- Counts an instruction. -/
def recordStep (meter : Meter) (instruction : Instruction) : Except Failure Unit × Meter :=
  meter.record (stepCost instruction)

end Meter

end StackCert
