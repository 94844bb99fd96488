import Mathlib.Data.Nat.Set
import Mathlib.Order.Bounds.Basic
import StackCert.Proofs.Outline
import StackCert.Proofs.Room
import StackCert.Proofs.Seclusion

/-!
# Certified heights are reached

The peak of balanced code is no mere bound. In the middle of a run, each open
frame still has a peak before it, counted from its base; the highest of them is
the crest of the machine (`Program.Climbs`). A move leaves the crest where it is,
or the height that it comes from was the crest. At the end of a run that stops,
nothing but the values themselves is left. The crest at the start is therefore
the greatest height of the stack over the whole run, for every context and every
host: which instructions are run is decided by the code alone.

A stack with less room than that cannot hold such a run. Up to the push for which
there is no room, the run with the lower limit is the other one in disguise.
-/

namespace StackCert

namespace Program

theorem Balanced.outputs_le_peak {program : Program} {bounds : Bounds}
    {source position height outputs peak : Nat}
    (balanced : program.Balanced bounds source position height outputs peak) : outputs ≤ peak := by
  induction balanced with
  | finish ended => exact Nat.le_refl _
  | run held assigned plain described enough admitted rest ih =>
      exact Nat.le_trans ih (Nat.le_max_right _ _)
  | call held assigned named enough later callee rest ihCallee ihRest =>
      exact Nat.le_trans ihRest (Nat.le_max_right _ _)

/-- The greatest height on the way of all frames to their ends, from `size` values on the stack. -/
inductive Climbs (program : Program) (bounds : Bounds) : Nat → List Frame → Nat → Prop where
  | done {size : Nat} : Climbs program bounds size [] size
  | frame {size peak crest : Nat} {frame : Frame} {callers : List Frame}
      (above : frame.base ≤ size)
      (balanced : program.Balanced bounds frame.source frame.position (size - frame.base)
        frame.outputs peak)
      (rest : Climbs program bounds (frame.base + frame.outputs) callers crest) :
      Climbs program bounds size (frame :: callers) (max (frame.base + peak) crest)

end Program

namespace Machine

/-- The open frames climb to a crest on the way to their ends. -/
def Climbs (machine : Machine) (bounds : Bounds) (crest : Nat) : Prop :=
  machine.program.Climbs bounds machine.stack.size machine.frames crest

variable {machine after : Machine} {bounds : Bounds} {crest : Nat}

/-- From the start, the crest is the peak of the entry source. -/
theorem climbs_start {program : Program} {source outputs peak : Nat}
    (balanced : program.Balanced bounds source 0 0 outputs peak) (context : Context)
    (stackLimit : Nat) (layout : Layout) :
    (start program context source outputs stackLimit layout).Climbs bounds peak := by
  have onlyFrame : program.Climbs bounds 0 [⟨source, 0, 0, outputs⟩]
      (max (0 + peak) (0 + outputs)) :=
    .frame (Nat.le_refl 0) balanced .done
  have highest : max (0 + peak) (0 + outputs) = peak := by
    have below := balanced.outputs_le_peak
    omega
  rw [highest] at onlyFrame
  exact onlyFrame

/-- The crest is the present height or still ahead after a move. -/
theorem Climbs.of_advances (climbs : machine.Climbs bounds crest)
    (advances : machine.Advances after) :
    ∃ crest', after.Climbs bounds crest' ∧ crest = max machine.stack.size crest' := by
  unfold Climbs at climbs
  cases advances with
  | run fetches plain admitted exchanges =>
      rename_i frame callers instruction operation effect stack
      rw [fetches.frames] at climbs
      have enough := fetches.enough
      have size := exchanges.size
      cases climbs with
      | frame above balanced rest =>
          rename_i callersCrest
          rcases balanced.rest_of_plain fetches.held fetches.assigned plain fetches.described with
            ⟨_, _, restPeak, rfl, restBalanced⟩
          have height : stack.size - frame.base =
              machine.stack.size - frame.base - effect.pops + effect.pushes := by omega
          have afterAbove : frame.base ≤ stack.size := by omega
          rw [← height] at restBalanced
          refine ⟨max (frame.base + restPeak) callersCrest, .frame afterAbove restBalanced rest, ?_⟩
          rw [← Nat.add_max_add_left, Nat.add_sub_cancel' above, Nat.max_assoc]
  | enter fetches named later present =>
      rename_i frame callers instruction call
      rw [fetches.frames] at climbs
      have enough := fetches.enough
      simp only at enough
      cases climbs with
      | frame above balanced rest =>
          rename_i callersCrest
          rcases balanced.rest_of_call fetches.held fetches.assigned named with
            ⟨_, _, calleePeak, restPeak, rfl, calleeBalanced, restBalanced⟩
          -- The peak of a callee counts its inputs, so the present height is not above it.
          have inputsBelow := calleeBalanced.height_le_peak
          have calleeHeight :
              machine.stack.size - (machine.stack.size - call.inputs) = call.inputs := by omega
          have height : machine.stack.size - call.inputs + call.outputs - frame.base =
              machine.stack.size - frame.base - call.inputs + call.outputs := by omega
          have callerAbove :
              frame.base ≤ machine.stack.size - call.inputs + call.outputs := by omega
          rw [← calleeHeight] at calleeBalanced
          rw [← height] at restBalanced
          refine ⟨max (machine.stack.size - call.inputs + calleePeak)
            (max (frame.base + restPeak) callersCrest), ?_, ?_⟩
          · exact .frame (Nat.sub_le _ _) calleeBalanced (.frame callerAbove restBalanced rest)
          · have calleeCrest : frame.base + (machine.stack.size - frame.base - call.inputs +
                calleePeak) = machine.stack.size - call.inputs + calleePeak := by omega
            have notAbove : machine.stack.size ≤ machine.stack.size - call.inputs + calleePeak := by
              omega
            rw [← Nat.add_max_add_left, calleeCrest, Nat.max_assoc,
              Nat.max_eq_right (Nat.le_trans notAbove (Nat.le_max_left _ _))]
  | leave frames ended full =>
      rename_i frame caller callers
      rw [frames] at climbs
      cases climbs with
      | frame above balanced rest =>
          rename_i callersCrest
          have atPeak := (balanced.eq_of_endsAt ended).2
          rw [show frame.base + frame.outputs = machine.stack.size by omega] at rest
          refine ⟨callersCrest, rest, ?_⟩
          omega

/-- Where the entry source ends, the present height is the crest. -/
theorem Climbs.eq_size_of_endsAt (climbs : machine.Climbs bounds crest) {frame : Frame}
    (frames : machine.frames = [frame])
    (ended : machine.program.EndsAt frame.source frame.position) : crest = machine.stack.size := by
  unfold Climbs at climbs
  rw [frames] at climbs
  cases climbs with
  | frame above balanced rest =>
      cases rest
      have atEnd := balanced.eq_of_endsAt ended
      omega

end Machine

namespace Evaluation

variable {σ : Type} {host : Host σ} {evaluation : Evaluation} {state : σ} {bounds : Bounds}
  {crest : Nat}

/-- The height of the stack after a number of steps, whatever they returned. -/
def heightAfter (host : Host σ) (evaluation : Evaluation) (state : σ) (steps : Nat) : Nat :=
  (evaluation.after host state steps).1.machine.stack.size

theorem range_heightAfter (host : Host σ) (evaluation : Evaluation) (state : σ) :
    Set.range (evaluation.heightAfter host state) =
      insert evaluation.machine.stack.size
        (Set.range ((evaluation.step host state).2.1.heightAfter host
          (evaluation.step host state).2.2)) := by
  rw [← Nat.range_of_succ (evaluation.heightAfter host state)]
  have later : evaluation.heightAfter host state ∘ Nat.succ =
      (evaluation.step host state).2.1.heightAfter host (evaluation.step host state).2.2 := by
    funext steps
    simp only [Function.comp, heightAfter, Nat.succ_eq_add_one, after_succ]
  rw [later]
  rfl

/-- The crest is the greatest height of a run that stops. -/
theorem isGreatest_heightAfter (running : evaluation.Running)
    (climbs : evaluation.machine.Climbs bounds crest)
    (stopped : (evaluation.run host state).1 = .stopped) :
    IsGreatest (Set.range (evaluation.heightAfter host state)) crest := by
  induction evaluation, state using run.induct host generalizing crest with
  | case1 evaluation state stepped exit =>
      rename_i ended
      rw [run_of_some ended] at stopped
      cases stopped
      have stops : evaluation.step host state = (some .stopped, stepped.2.1, stepped.2.2) :=
        Prod.ext ended rfl
      rcases endsAt_of_stopped running stops with ⟨frame, frames, atEnd, _, sameStack⟩
      rw [climbs.eq_size_of_endsAt frames atEnd]
      -- All later moments are the same, with the stack of the last step.
      rcases turns_of_step running stops with ⟨turns, status⟩
      have hasEnded : (evaluation.after host state 1).1.Ended .stopped :=
        ⟨status, turns.status_eq running.machine⟩
      constructor
      · exact ⟨0, rfl⟩
      · rintro height ⟨steps, rfl⟩
        cases steps with
        | zero => exact Nat.le_refl _
        | succ steps =>
            simp only [heightAfter, after_of_ended hasEnded (Nat.succ_le_succ (Nat.zero_le steps))]
            exact Nat.le_of_eq (congrArg Stack.size sameStack)
  | case2 evaluation state stepped continues =>
      rename_i ih
      rw [run_of_none continues] at stopped
      have goesOn : evaluation.step host state = (none, stepped.2.1, stepped.2.2) :=
        Prod.ext continues rfl
      rcases climbs.of_advances (advances_of_step running goesOn).1 with ⟨crest', climbsOn, rfl⟩
      rw [range_heightAfter]
      apply IsGreatest.insert
      exact ih (running_of_step running goesOn) climbsOn stopped

theorem le_limit_of_isGreatest (running : evaluation.Running)
    (greatest : IsGreatest (Set.range (evaluation.heightAfter host state)) crest) :
    crest ≤ evaluation.machine.stack.limit := by
  rcases greatest.1 with ⟨steps, rfl⟩
  have sameLimit : (evaluation.after host state steps).1.machine.stack.limit =
      evaluation.machine.stack.limit := by
    apply after_induction (fun machine => machine.stack.limit = evaluation.machine.stack.limit)
    · intro machine after exit? _ turns kept
      exact turns.limit_eq.trans kept
    · exact running
    · rfl
  rw [← sameLimit]
  exact (evaluation.after host state steps).1.machine.stack.size_le_limit

/--
Certified heights are exact. Whenever the run of an entry point stops, over any
host, context and layout, the certified height is the greatest height of its stack.
With a lower limit no host brings it to a stop, and one that does not look at the
limit has it overflow.
-/
theorem certified_height_is_reached {program : Program} {terms : Terms} {outputs heights : List Nat}
    (accepted : (Certifier.check ⟨program, terms, []⟩ outputs).1 = .ok heights)
    {source expected height : Nat} (entry : outputs[source]? = some expected)
    (highest : heights[source]? = some height) (context : Context) (layout : Layout)
    (space : Word) (host : Host σ) (state : σ) (stackLimit : Nat) :
    let machine := fun limit => Machine.start program context source expected limit layout
    let evaluation := fun limit => start (machine limit) space
    ((evaluation stackLimit).run host state).1 = .stopped →
      IsGreatest (Set.range fun steps =>
        ((evaluation stackLimit).after host state steps).1.machine.stack.size) height ∧
      ∀ lower < height,
        (∀ (τ : Type) (other : Host τ) (state' : τ),
          ((evaluation lower).run other state').1 ≠ .stopped) ∧
        ∀ alike state', host.OverlooksRoom space alike → alike state' state →
          ((evaluation lower).run host state').1 = .failed .stackOverflow := by
  intro machine evaluation stopped
  rcases Certifier.balanced_of_check accepted entry with ⟨peak, isHighest, balanced⟩
  cases highest.symm.trans isHighest
  have running (limit : Nat) : (evaluation limit).Running := running_start ..
  have reached {τ : Type} {host : Host τ} {limit : Nat} {state : τ}
      (stopped : ((evaluation limit).run host state).1 = .stopped) :=
    isGreatest_heightAfter (running limit) (Machine.climbs_start balanced context limit layout)
      stopped
  refine ⟨reached stopped, ?_⟩
  intro lower isLower
  have unstopped {τ : Type} (other : Host τ) (state' : τ) :
      ((evaluation lower).run other state').1 ≠ .stopped := by
    intro stops
    have fits : height ≤ lower := le_limit_of_isGreatest (running lower) (reached stops)
    exact absurd isLower (Nat.not_lt.mpr fits)
  refine ⟨fun _ => unstopped, ?_⟩
  intro alike state' overlooks same
  rcases mirrored_roomier overlooks same (running lower) (stackLimit - lower) with
    mirrored | overflows
  · -- The lower run would then stop as the other one does.
    have fits : height ≤ stackLimit := le_limit_of_isGreatest (running stackLimit) (reached stopped)
    have restored : lower + (stackLimit - lower) = stackLimit := by omega
    have sameStart : (evaluation lower).disguised (.roomier (stackLimit - lower)) =
        evaluation stackLimit := by
      simp only [evaluation, machine, start, disguised, Disguise.roomier, Stack.roomier,
        Machine.start, Stack.empty, restored]
    rw [sameStart] at mirrored
    exact absurd (mirrored.outcome.symm.trans stopped) (unstopped host state')
  · exact overflows

/--
The peak is inside a callee, which keeps a word of its caller below its own two: the
run needs room for all three, although both the inputs and the outputs are fewer.
-/
theorem certified_height_is_reached_in_callee :
    let program : Program := ⟨#[#[0x00, 0, 0x00, 0, 0x03, 0x51], #[0x00, 0, 0x10, 2]], #[5]⟩
    let evaluation := fun limit => start (Machine.start program ⟨[]⟩ 0 2 limit .standard) 7
    let executor : Executor SparseStore := .start {} 9
    let alike : Executor SparseStore → Executor SparseStore → Prop := fun left right =>
      left.store = right.store ∧ left.meter = right.meter
    (Certifier.check ⟨program, ⟨⟨[]⟩, none⟩, []⟩ [2]).1 = .ok [3] ∧
      ((evaluation 10).run Executor.host executor).1 = .stopped ∧
      (Executor.host : Host (Executor SparseStore)).OverlooksRoom 7 alike ∧
      alike executor executor ∧
      IsGreatest (Set.range fun steps =>
        ((evaluation 10).after Executor.host executor steps).1.machine.stack.size) 3 ∧
      ((evaluation 2).run Executor.host executor).1 = .failed .stackOverflow := by
  intro program evaluation executor alike
  have accepted : (Certifier.check ⟨program, ⟨⟨[]⟩, none⟩, []⟩ [2]).1 = .ok [3] := by
    decide +kernel
  have ran : ((evaluation 10).runFor Executor.host 9 executor).map Prod.fst = some .stopped := by
    decide +kernel
  have stopped : ((evaluation 10).run Executor.host executor).1 = .stopped := by
    rcases Option.map_eq_some_iff.mp ran with ⟨ended, found, exit⟩
    rw [run_of_runFor found]
    exact exit
  have overlooks : (Executor.host : Host (Executor SparseStore)).OverlooksRoom 7 alike :=
    fun slack => Executor.host_blind.mirrors (.roomier slack) 7 _
  rcases certified_height_is_reached accepted rfl rfl ⟨[]⟩ .standard 7 Executor.host executor 10
    stopped with ⟨greatest, overflows⟩
  exact ⟨accepted, stopped, overlooks, ⟨rfl, rfl⟩, greatest,
    (overflows 2 (by decide)).2 alike executor overlooks ⟨rfl, rfl⟩⟩

end Evaluation

end StackCert
