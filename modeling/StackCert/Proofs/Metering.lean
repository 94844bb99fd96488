import Mathlib.Algebra.Ring.Nat
import StackCert.Meter

/-!
# What a meter counts

A meter adds costs in 64 bits, checks whether the sum wraps around, and forgets the
sum once a cost does not fit. None of this shows: a cost is counted exactly if the
exact sum is within the limit (`Meter.record_of_spent`). `Meter.Counts` says that the
sum is an exact number within the limit, and the numbers that follow are exact too
(`Meter.Counts.record`). After a call that failed
the meter is exhausted and stays so. What a meter returns and reports is therefore
known from the record of the earlier calls and their answers.
-/

namespace StackCert

/-- A call on a meter. -/
inductive Charge where
  | cost (units : UInt64)
  | step (instruction : Instruction)
  | fail
deriving DecidableEq, Repr

/-- The number that a call asks a meter to count. -/
def Charge.amount : Charge → Nat
  | .cost units => units.toNat
  | .step instruction => (Meter.stepCost instruction).toNat
  | .fail => 0

/-- Calls on a meter with what they returned. -/
abbrev Bill := List (Charge × Except Failure Unit)

namespace Bill

/-- Whether no call has failed. -/
def clean (bill : Bill) : Bool := bill.all fun call => call.2.isOk

/-- The exact sum of the costs that were accepted. -/
def accepted (bill : Bill) : Nat :=
  ((bill.filter fun call => call.2.isOk).map fun call => call.1.amount).sum

end Bill

namespace Meter

/-- What a call returns, and the meter after it. -/
def charge (meter : Meter) : Charge → Except Failure Unit × Meter
  | .cost units => meter.record units
  | .step instruction => meter.recordStep instruction
  | .fail => meter.exhaust

/-- What a sequence of calls returns, and the meter after them. -/
def chargeAll (meter : Meter) : List Charge → Bill × Meter
  | [] => ([], meter)
  | charge :: later =>
      let charged := meter.charge charge
      let rest := charged.2.chargeAll later
      ((charge, charged.1) :: rest.1, rest.2)

/-- A meter that has counted a number of steps against a limit. -/
structure Counts (meter : Meter) (limit : UInt64) (count : Nat) : Prop where
  limit : meter.limit = limit
  spent : ∃ spent, meter.spent? = some spent ∧ spent.toNat = count
  within : count ≤ meter.limit.toNat

/-- A meter with a limit that has been exhausted. -/
structure Exhausted (meter : Meter) (limit : UInt64) : Prop where
  limit : meter.limit = limit
  spent : meter.spent? = none

variable {meter : Meter} {limit : UInt64} {count : Nat}

theorem counts_ofLimit (limit : UInt64) : (ofLimit limit).Counts limit 0 :=
  ⟨rfl, ⟨0, rfl, rfl⟩, Nat.zero_le _⟩

theorem Counts.used_eq (counts : meter.Counts limit count) : meter.used.toNat = count := by
  rcases counts.spent with ⟨spent, found, rfl⟩
  simp [used, found]

theorem Counts.not_exhausted (counts : meter.Counts limit count) : meter.isExhausted = false := by
  rcases counts.spent with ⟨spent, found, _⟩
  simp [isExhausted, found]

theorem Exhausted.used_eq (exhausted : meter.Exhausted limit) : meter.used = limit := by
  simp [used, exhausted.spent, exhausted.limit]

theorem exhausted_exhaust (isLimit : meter.limit = limit) : meter.exhaust.2.Exhausted limit :=
  ⟨isLimit, rfl⟩

theorem toNat_add_of_fits {left right : UInt64} (fits : left.toNat + right.toNat < 2 ^ 64) :
    (left + right).toNat = left.toNat + right.toNat := by
  rw [UInt64.toNat_add, Nat.mod_eq_of_lt fits]

/-- The checked sum is there exactly if 64 bits hold it. -/
theorem sum?_eq (left right : UInt64) :
    sum? left right =
      if left.toNat + right.toNat < 2 ^ 64 then some (left + right) else none := by
  have leftSmall := left.toNat_lt
  have rightSmall := right.toNat_lt
  unfold sum?
  by_cases fits : left.toNat + right.toNat < 2 ^ 64
  · have exact := toNat_add_of_fits fits
    rw [if_neg (by rw [UInt64.lt_iff_toNat_lt]; omega), if_pos fits]
  · -- a sum that wraps around loses 2 ^ 64, which is more than the other term
    have wrapped : (left + right).toNat < left.toNat := by
      rw [UInt64.toNat_add]
      omega
    rw [if_pos (UInt64.lt_iff_toNat_lt.mpr wrapped), if_neg fits]

/-- A cost is counted exactly if the exact sum is within the limit. -/
theorem record_of_spent {spent : UInt64} (found : meter.spent? = some spent) (cost : UInt64) :
    meter.record cost =
      if spent.toNat + cost.toNat ≤ meter.limit.toNat then
        (.ok (), { meter with spent? := some (spent + cost) })
      else meter.exhaust := by
  have limitSmall := meter.limit.toNat_lt
  rw [Meter.record, found]
  simp only [sum?_eq]
  by_cases fits : spent.toNat + cost.toNat < 2 ^ 64
  · simp only [if_pos fits, UInt64.le_iff_toNat_le, toNat_add_of_fits fits]
  · -- the sum does not fit in 64 bits, and the limit does
    rw [if_neg fits, if_neg (by omega)]

/-- A cost is counted if the limit leaves room for it, and exhausts the meter if not. -/
theorem Counts.record (counts : meter.Counts limit count) (cost : UInt64) :
    (∃ after, meter.record cost = (.ok (), after) ∧ after.Counts limit (count + cost.toNat)) ∨
      (meter.record cost = meter.exhaust ∧ limit.toNat < count + cost.toNat) := by
  rcases counts with ⟨rfl, ⟨spent, found, rfl⟩, within⟩
  rw [record_of_spent found]
  by_cases room : spent.toNat + cost.toNat ≤ meter.limit.toNat
  · left
    refine ⟨{ meter with spent? := some (spent + cost) }, if_pos room, rfl, ⟨_, rfl, ?_⟩, room⟩
    -- the sum is within a limit of 64 bits, so it does not wrap around
    have small := meter.limit.toNat_lt
    exact toNat_add_of_fits (by omega)
  · right
    exact ⟨if_neg room, Nat.not_le.mp room⟩

/-- A step is counted up to the limit, and exhausts the meter there. -/
theorem Counts.recordStep (counts : meter.Counts limit count) (instruction : Instruction) :
    (∃ after, meter.recordStep instruction = (.ok (), after) ∧ after.Counts limit (count + 1)) ∨
      ∃ after, meter.recordStep instruction = (.error .resourceExhausted, after) ∧
        count = limit.toNat := by
  have one : (stepCost instruction).toNat = 1 := rfl
  have within := counts.within
  rw [counts.limit] at within
  rcases counts.record (stepCost instruction) with ⟨after, recorded, countsOn⟩ | ⟨recorded, full⟩
  · exact Or.inl ⟨after, recorded, countsOn⟩
  · exact Or.inr ⟨_, recorded, by omega⟩

theorem exhausted_of_recordStep {after : Meter} {instruction : Instruction} {failure : Failure}
    (recorded : meter.recordStep instruction = (.error failure, after)) :
    after.isExhausted = true := by
  unfold recordStep at recorded
  cases found : meter.spent? with
  | none =>
      rw [Meter.record, found] at recorded
      cases recorded
      rfl
  | some spent =>
      rw [record_of_spent found] at recorded
      split at recorded
      · simp at recorded
      · cases recorded
        rfl

theorem Exhausted.record (exhausted : meter.Exhausted limit) (cost : UInt64) :
    meter.record cost = meter.exhaust := by
  simp [Meter.record, exhausted.spent]

theorem Exhausted.charge (exhausted : meter.Exhausted limit) (charge : Charge) :
    meter.charge charge = meter.exhaust := by
  cases charge with
  | cost units => exact exhausted.record units
  | step instruction => exact exhausted.record _
  | fail => rfl

/-- A call is counted exactly, or it fails and exhausts the meter. -/
theorem Counts.charge (counts : meter.Counts limit count) (charge : Charge) :
    (∃ after, meter.charge charge = (.ok (), after) ∧
      after.Counts limit (count + charge.amount)) ∨
    meter.charge charge = meter.exhaust := by
  cases charge with
  | cost units =>
      rcases counts.record units with counted | ⟨recorded, _⟩
      · exact Or.inl counted
      · exact Or.inr recorded
  | step instruction =>
      rcases counts.record (stepCost instruction) with counted | ⟨recorded, _⟩
      · exact Or.inl counted
      · exact Or.inr recorded
  | fail => exact Or.inr rfl

theorem Exhausted.chargeAll (exhausted : meter.Exhausted limit) (charges : List Charge) :
    (meter.chargeAll charges).2.Exhausted limit := by
  induction charges generalizing meter with
  | nil => exact exhausted
  | cons charge later ih =>
      simp only [Meter.chargeAll, exhausted.charge]
      exact ih (exhausted_exhaust exhausted.limit)

/-- The meter has counted a number, or it is exhausted if a call has failed. -/
def Tallies (meter : Meter) (limit : UInt64) (count : Nat) : Bool → Prop
  | true => meter.Counts limit count
  | false => meter.Exhausted limit

/-- After any calls the meter has counted what they were granted, up to the first that failed. -/
theorem Counts.chargeAll (counts : meter.Counts limit count) (charges : List Charge) :
    (meter.chargeAll charges).2.Tallies limit
      (count + (meter.chargeAll charges).1.accepted) (meter.chargeAll charges).1.clean := by
  induction charges generalizing meter count with
  | nil => exact counts
  | cons charge later ih =>
      simp only [Meter.chargeAll]
      rcases counts.charge charge with ⟨after, charged, countsOn⟩ | charged
      · rw [charged]
        simpa [Bill.accepted, Bill.clean, Except.isOk, Except.toBool, Nat.add_assoc]
          using ih countsOn
      · rw [charged]
        have spent := (exhausted_exhaust counts.limit).chargeAll later
        simpa [Bill.clean, exhaust, Except.isOk, Except.toBool, Tallies] using spent

section Tallies

variable {clean : Bool}

theorem Tallies.limit_eq (tallies : meter.Tallies limit count clean) : meter.limit = limit := by
  cases clean with
  | true => exact Counts.limit tallies
  | false => exact Exhausted.limit tallies

theorem Tallies.isExhausted_eq (tallies : meter.Tallies limit count clean) :
    meter.isExhausted = !clean := by
  cases clean with
  | true => exact Counts.not_exhausted tallies
  | false => simp [isExhausted, Exhausted.spent tallies]

theorem Tallies.used_eq (tallies : meter.Tallies limit count clean) :
    meter.used.toNat = if clean = true then count else limit.toNat := by
  cases clean with
  | true => exact Counts.used_eq tallies
  | false => exact congrArg UInt64.toNat (Exhausted.used_eq tallies)

theorem Tallies.used_le (tallies : meter.Tallies limit count clean) :
    meter.used ≤ meter.limit := by
  cases clean with
  | true =>
      rw [UInt64.le_iff_toNat_le, Counts.used_eq tallies]
      exact Counts.within tallies
  | false =>
      rw [Exhausted.used_eq tallies, Exhausted.limit tallies]
      exact UInt64.le_refl limit

theorem Tallies.record (tallies : meter.Tallies limit count clean) (cost : UInt64) :
    (meter.record cost).1 =
      if clean = true ∧ count + cost.toNat ≤ limit.toNat then .ok ()
      else .error .resourceExhausted := by
  cases clean with
  | true =>
      rcases Counts.record tallies cost with ⟨after, recorded, counts⟩ | ⟨recorded, full⟩
      · have within := counts.within
        rw [counts.limit] at within
        rw [recorded, if_pos ⟨rfl, within⟩]
      · rw [recorded, if_neg (by omega)]
        rfl
  | false =>
      rw [Exhausted.record tallies cost, if_neg (by simp)]
      rfl

end Tallies

/--
A meter is an exact bounded counter. Whatever calls were made on it, a cost is accepted
exactly if none of them has failed and the exact sum of the costs accepted so far leaves
room for it within the limit; all other calls fail, and the meter is then exhausted for
good. It reports that sum as used until a call fails, and the whole limit from then on,
so that what is used and what remains always add up to the limit.
-/
theorem meter_is_exact_bounded_counter (limit : UInt64) (earlier : List Charge) :
    let charged := (ofLimit limit).chargeAll earlier
    let clean := charged.1.clean
    let accepted := charged.1.accepted
    let meter := charged.2
    (∀ cost : UInt64, (meter.record cost).1 =
      if clean = true ∧ accepted + cost.toNat ≤ limit.toNat then .ok ()
      else .error .resourceExhausted) ∧
    (∀ instruction, (meter.recordStep instruction).1 =
      if clean = true ∧ accepted + 1 ≤ limit.toNat then .ok () else .error .resourceExhausted) ∧
    meter.exhaust.1 = .error .resourceExhausted ∧
    meter.limit = limit ∧ meter.isExhausted = !clean ∧
    meter.used.toNat = (if clean = true then accepted else limit.toNat) ∧
    meter.used ≤ meter.limit ∧ meter.used.toNat + meter.remaining.toNat = limit.toNat := by
  intro charged clean accepted meter
  have tallies : meter.Tallies limit accepted clean := by
    have tallies := (counts_ofLimit limit).chargeAll earlier
    rwa [Nat.zero_add] at tallies
  have isLimit := tallies.limit_eq
  have bounded := tallies.used_le
  refine ⟨tallies.record, fun instruction => tallies.record (stepCost instruction), rfl, isLimit,
    tallies.isExhausted_eq, tallies.used_eq, bounded, ?_⟩
  rw [remaining, UInt64.toNat_sub_of_le _ _ bounded, isLimit]
  rw [isLimit, UInt64.le_iff_toNat_le] at bounded
  omega

end Meter

end StackCert
