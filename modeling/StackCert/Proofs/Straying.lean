import StackCert.Executor
import StackCert.Proofs.Arithmetic
import StackCert.Proofs.Turn

/-!
# Runs that break off

An operation on tier reports has no result if the fields of the layout are as wide as
a word. A machine strays when it comes to such an operation with its values. The
operation does not return then, and neither does the loop that runs the machine. The
end of the run is marked by `Failure.undefined` (`Machine.step_of_strays`).

Apart from that every run returns, of programs that were never certified as well. A
layout that `Layout.ofWidth?` admits has narrow fields, so that nothing strays under it.
-/

namespace StackCert

namespace Layout

variable {layout : Layout}

theorem mask?_of_wide (wide : 256 ≤ layout.fieldBits) : layout.mask? = none :=
  if_neg (Nat.not_lt.mpr wide)

theorem setField?_of_wide (wide : 256 ≤ layout.fieldBits) (report : Word) (index : Nat)
    (time : Word) : layout.setField? report index time = none := by
  simp [setField?, mask?_of_wide wide]

theorem elapsed?_of_wide (wide : 256 ≤ layout.fieldBits) (newer older : Word) :
    layout.elapsed? newer older = none := by
  have first : List.range tiers = 0 :: List.range' 1 (tiers - 1) := rfl
  simp [elapsed?, first, setField?_of_wide wide]

end Layout

namespace Machine

/-- A running machine comes to an operation on tier reports that has no result. -/
def Strays (machine : Machine) : Prop :=
  ∃ frame callers reducer operand kept words, machine.Faces frame callers reducer operand ∧
    reducer.arity operand = .ok words.length ∧ machine.stack.toList = kept ++ words ∧
    frame.base ≤ kept.length ∧ reducer.Undefined machine.layout operand words

variable {machine : Machine}

theorem Strays.wide (strays : machine.Strays) : 256 ≤ machine.layout.fieldBits := by
  rcases strays with ⟨_, _, _, _, _, _, _, _, _, _, undefined⟩
  exact Reducer.wide_of_undefined undefined

theorem layout_step (machine : Machine) : machine.step.2.layout = machine.layout := by
  unfold step execute follow leave finish exit
  repeat' split
  all_goals rfl

theorem layout_after (machine : Machine) (steps : Nat) :
    (machine.after steps).layout = machine.layout := by
  induction steps with
  | zero => rfl
  | succ steps ih => rw [after, layout_step, ih]

end Machine

namespace Evaluation

variable {σ : Type} {host : Host σ} {evaluation : Evaluation} {state : σ}

/-- The next instruction is permitted, and the machine strays at it. -/
def Strays (host : Host σ) (evaluation : Evaluation) (state : σ) : Prop :=
  let admitted := (evaluation.permit host state).1
  admitted.status = none ∧ admitted.machine.Strays

theorem Strays.machine (strays : evaluation.Strays host state) : evaluation.machine.Strays := by
  rcases strays with ⟨goesOn, strays⟩
  rwa [eq_of_permit (Prod.eta _).symm goesOn] at strays

end Evaluation

/-- Two constants and the time between them. -/
def Program.difference : Program := ⟨#[#[0x00, 0, 0x00, 0, 0x40, 0]], #[0]⟩

namespace Evaluation

/-- An evaluation of `Program.difference`, at a position of its source and with some values. -/
def differenceAt (layout : Layout) (position : Nat) (stack : Stack) : Evaluation :=
  ⟨⟨.difference, {}, layout, [⟨0, position, 0, 1⟩], stack, none⟩, 0, none⟩

/-- An executor that may run three instructions and has counted some of them. -/
def counting (steps : UInt64) : Executor SparseStore := ⟨{}, ⟨3, some steps⟩, {}⟩

theorem after_differenceAt (layout : Layout) :
    (differenceAt layout 0 (.empty 2)).after Executor.host (counting 0) 2 =
      (differenceAt layout 4 ⟨#[0, 0], 2, by decide⟩, counting 2) := by
  have first : (differenceAt layout 0 (.empty 2)).step Executor.host (counting 0) =
      (none, differenceAt layout 2 ⟨#[0], 2, by decide⟩, counting 1) := rfl
  have second : (differenceAt layout 2 ⟨#[0], 2, by decide⟩).step Executor.host (counting 1) =
      (none, differenceAt layout 4 ⟨#[0, 0], 2, by decide⟩, counting 2) := rfl
  rw [after_succ, first, after_succ, second, after]

theorem strays_differenceAt {layout : Layout} (wide : 256 ≤ layout.fieldBits) :
    (differenceAt layout 4 ⟨#[0, 0], 2, by decide⟩).Strays Executor.host (counting 2) := by
  have permitted :
      (differenceAt layout 4 ⟨#[0, 0], 2, by decide⟩).permit Executor.host (counting 2) =
        (differenceAt layout 4 ⟨#[0, 0], 2, by decide⟩, counting 3) := rfl
  have held : Program.difference.Holds 0 4 ⟨(Operation.reduce .saturatingDiff).opcode, 0⟩ :=
    ⟨_, rfl, rfl⟩
  simp only [Strays, permitted]
  refine ⟨rfl, ⟨0, 4, 0, 1⟩, [], .saturatingDiff, 0, [], [0, 0], ⟨rfl, rfl, held⟩, rfl, rfl, ?_, ?_⟩
  · exact Nat.le_refl 0
  · exact Layout.elapsed?_of_wide wide 0 0

end Evaluation

end StackCert
