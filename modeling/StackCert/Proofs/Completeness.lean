import StackCert.Host.Plain
import StackCert.Proofs.Outline

/-!
# Certification rejects nothing that could succeed

Code has no jumps, so a run that stops has passed every instruction of its entry
point and of each source it called, with the values, the operands and the room
that certification asks for. Read backwards, from the stop on, the run is a
derivation of balance: its last state is sustained because the entry source has
ended with the declared values, and each move carries this back to the state
before it. Against the bounds of the context that was read and with the limit of
the stack that was used, the certifier therefore accepts the entry point.

This asks nothing of the host. One host that lets a single run come to its end
is enough.
-/

namespace StackCert

namespace Machine

theorem nested_start (program : Program) (context : Context) (source outputs stackLimit : Nat)
    (layout : Layout) : (start program context source outputs stackLimit layout).Nested :=
  ⟨Nat.zero_le _, trivial⟩

/-- A machine with one frame that has ended with the declared values is sustained. -/
theorem sustained_of_endsAt {machine : Machine} {frame : Frame} (bounds : Bounds)
    (nested : machine.Nested) (frames : machine.frames = [frame])
    (ended : machine.program.EndsAt frame.source frame.position)
    (full : machine.stack.size - frame.base = frame.outputs) :
    machine.Sustained bounds (frame.base + frame.outputs) := by
  have fits : machine.stack.size ≤ machine.stack.limit := machine.stack.size_le_limit
  unfold Nested at nested
  simp only [Sustained]
  rw [frames] at nested ⊢
  have above : frame.base ≤ machine.stack.size := nested.1
  refine .frame above (.of_endsAt ended full) ?_ .done
  omega

end Machine

namespace Evaluation

variable {σ : Type} {host : Host σ}

/-- Whatever has stopped was sustained from its start on. -/
theorem sustained_of_stopped {evaluation : Evaluation} {state : σ}
    (running : evaluation.Running) (nested : evaluation.machine.Nested)
    (stopped : (evaluation.run host state).1 = .stopped) :
    ∃ total, evaluation.machine.Sustained evaluation.machine.context.bounds total := by
  -- The induction goes along the run; each move is then read backwards.
  induction evaluation, state using run.induct host with
  | case1 evaluation state stepped exit ended =>
      rw [run_of_some ended] at stopped
      cases stopped
      rcases endsAt_of_stopped running (Prod.ext ended rfl) with ⟨frame, frames, atEnd, full, _⟩
      exact ⟨_, Machine.sustained_of_endsAt _ nested frames atEnd full⟩
  | case2 evaluation state stepped continues ih =>
      rw [run_of_none continues] at stopped
      have goesOn : evaluation.step host state = (none, stepped.2.1, stepped.2.2) :=
        Prod.ext continues rfl
      have advances := (advances_of_step running goesOn).1
      rcases ih (running_of_step running goesOn) (nested.of_advances advances) stopped with
        ⟨total, sustained⟩
      rw [advances.context_eq] at sustained
      exact ⟨total, .before_advances nested advances sustained⟩

end Evaluation

namespace Certifier

/-- With the bounds of a context, no entry point is rejected that could stop over that context. -/
theorem check_accepts_stopping_entries {program : Program} {context : Context} {limit : Nat}
    {outputs : List Nat}
    (stops : ∀ source expected, outputs[source]? = some expected →
      ∃ (σ : Type) (host : Host σ) (state : σ) (space : Word) (layout : Layout),
        ((Evaluation.start (.start program context source expected limit layout) space).run
          host state).1 = .stopped) :
    ∃ heights,
      ((Certifier.withStackLimit ⟨program, { bounds := context.bounds }, []⟩ limit).check
        outputs).1 = .ok heights := by
  apply check_of_balanced
  intro source expected entry
  rcases stops source expected entry with ⟨σ, host, state, space, layout, stopped⟩
  rcases Evaluation.sustained_of_stopped (Evaluation.running_start ..)
    (Machine.nested_start ..) stopped with ⟨total, sustained⟩
  rcases Machine.sustained_start_iff.mp sustained with ⟨_, peak, fits, balanced⟩
  refine ⟨peak, balanced, ?_⟩
  simpa [Terms.exceededBy] using fits

/-- A key of the context is read, and what the host finds there is doubled by a called source. -/
theorem check_accepts_stopping_entries_doubled :
    let program : Program := ⟨#[#[0x02, 0, 0x30, 0, 0x03, 0x51], #[0x01, 0, 0x10, 2]], #[]⟩
    let context : Context := ⟨[[7]]⟩
    ∃ heights,
      ((Certifier.withStackLimit ⟨program, { bounds := context.bounds }, []⟩ 2).check [1]).1 =
        .ok heights := by
  intro program context
  apply check_accepts_stopping_entries
  intro source expected entry
  cases source with
  | zero =>
      cases entry
      have ran : (Evaluation.runFor PlainHost.host 7
          (.start (.start program context 0 1 2 .standard) 0)
          (⟨{}, {}⟩ : PlainHost SparseStore)).map Prod.fst = some .stopped := by decide +kernel
      rcases Option.map_eq_some_iff.mp ran with ⟨ended, found, stopped⟩
      refine ⟨PlainHost SparseStore, PlainHost.host, ⟨{}, {}⟩, 0, .standard, ?_⟩
      rw [Evaluation.run_of_runFor found]
      exact stopped
  | succ source => simp at entry

end Certifier

end StackCert
