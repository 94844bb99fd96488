import StackCert.Layout

/-!
# Selecting among reports

A selection combines several reports into one, tier by tier, keeping only times
that are not after a reference time. For each tier the reports are visited one
after another, with the time kept so far. A time after the reference ends the visit
if every time has to qualify; what was kept before is then given up.
-/

namespace StackCert

/-- What becomes of a tier when one of the reports has a time after the reference. -/
inductive Logic where
  /-- The tier is never reached: every time has to qualify. -/
  | every
  /-- The time is left out: any time that qualifies is enough. -/
  | any
deriving DecidableEq, Repr

/-- Which of the qualifying times is kept. -/
inductive Mode where
  | least
  | greatest
  /-- The time of the report that comes first. -/
  | first
deriving DecidableEq, Repr

namespace Logic

/-- The logic with the given number. -/
def ofNat? : Nat → Option Logic
  | 0 => some .every
  | 1 => some .any
  | _ => none

end Logic

namespace Mode

/-- The mode with the given number. -/
def ofNat? : Nat → Option Mode
  | 0 => some .least
  | 1 => some .greatest
  | 2 => some .first
  | _ => none

/-- Decides between the time kept so far and the next one. -/
def keep : Mode → Word → Word → Word
  | .least, current, next => current.lesser next
  | .greatest, current, next => current.greater next
  | .first, current, _ => current

/-- The time kept after the next one was seen; the first one is kept in any mode. -/
def keepNext (mode : Mode) : Option Word → Word → Word
  | none, next => next
  | some current, next => mode.keep current next

end Mode

namespace Layout

/-- What visiting the reports has come to for one tier. -/
structure Visit where
  /-- The time kept so far, if there is one. -/
  kept : Option Word
  /-- Whether a time was met that rules the tier out. -/
  failed : Bool
deriving DecidableEq, Repr

/-- Visits reports for one tier, from the time kept so far, up to a time that rules it out. -/
def visit? (layout : Layout) (logic : Logic) (mode : Mode) (reference : Word) (tier : Nat)
    (kept : Option Word) : List Word → Option Visit
  | [] => some ⟨kept, false⟩
  | report :: reports => do
      let time ← layout.time? report tier
      if time ≤ reference then
        layout.visit? logic mode reference tier (some (mode.keepNext kept time)) reports
      else if logic = .every then return ⟨kept, true⟩
      else layout.visit? logic mode reference tier kept reports

/-- The time that a visit leaves for its tier, which is never reached if there is none. -/
def settled? (layout : Layout) : Visit → Option Word
  | ⟨some time, false⟩ => some time
  | _ => layout.mask?

/-- Combines reports tier by tier. -/
def select? (layout : Layout) (logic : Logic) (mode : Mode) (reference : Word)
    (reports : List Word) : Option Word :=
  (List.range tiers).foldlM (fun result index => do
    let visit ← layout.visit? logic mode reference (index + 1) none reports
    let selected ← layout.settled? visit
    layout.setField? result index selected) 0

end Layout

end StackCert
