import Mathlib.Data.List.Nodup
import StackCert.Proofs.BinaryForm
import StackCert.Proofs.Inquiry
import StackCert.Proofs.StepLimit
import StackCert.Replay

/-!
# Replaying finds no broken promise

Whatever bytes are replayed, no promise of certification is found broken. A program
that was read has the bytes it was read from as its binary form. The context that
is made of the data satisfies its own bounds, so a deployed entry point is entered,
and it then ends with the certified number of values, aborts by itself or runs out
of steps; the store, being sparse, refuses nothing. The final height of a source is
determined by the program, so that of the numbers of values tried at most one is
accepted and has a result. Nor is an operation ever asked for a value that it does
not have: the words of the data are written by at most 32 bytes each, and under the
standard layout all operations on tier reports are defined.
-/

namespace StackCert

/-- A program can be certified with one number of values for an entry point only. -/
theorem Settings.eq_of_deploy {settings : Settings} {program : Program} {bounds : Bounds}
    {outputs outputs' : List Nat} {expression expression' : Expression}
    (deployed : settings.deploy program bounds outputs = .ok expression)
    (deployed' : settings.deploy program bounds outputs' = .ok expression')
    (source : Nat) {expected expected' : Nat} (entry : outputs[source]? = some expected)
    (entry' : outputs'[source]? = some expected') : expected = expected' := by
  have outlined : ∀ {outputs expected expression},
      settings.deploy program bounds outputs = .ok expression →
      outputs[source]? = some expected → ∃ height,
        program.outline ⟨bounds, some settings.stackLimit⟩ source 0 = .ok ⟨expected, height⟩ := by
    intro outputs expected expression deployed entry
    rcases deploy_eq_ok_iff.mp deployed with ⟨heights, accepted, _⟩
    rcases Program.outlineEntries_eq_ok_iff.mp (Certifier.check_eq_ok_iff.mp accepted).2 with
      ⟨length, outlines⟩
    have inside : source < heights.length := by
      rw [length]
      exact (List.getElem?_eq_some_iff.mp entry).1
    have found := outlines source expected _ entry (List.getElem?_eq_getElem inside)
    rw [Nat.zero_add] at found
    exact ⟨_, found⟩
  rcases outlined deployed entry with ⟨height, found⟩
  rcases outlined deployed' entry' with ⟨height', found'⟩
  cases found.symm.trans found'
  rfl

theorem Instruction.Aborts.not_fatal {instruction : Instruction} {failure : Failure}
    (aborts : instruction.Aborts failure) : failure.isFatal = false := by
  cases aborts with
  | condition => rfl
  | reduction assigned aborts => cases aborts <;> rfl

namespace Replay

/-- What is promised of the result of a program certified for a number of values. -/
def Promised (outputs : Nat) : Result → Prop
  | .ok words => words.length = outputs
  | .error failure => failure.isFatal = false ∨ failure = .resourceExhausted

theorem violation?_eq_none_iff {outputs : Nat} {result : Result} :
    violation? outputs result = none ↔ Promised outputs result := by
  cases result with
  | ok words => simp [violation?, Promised]
  | error failure =>
      simp only [violation?, Promised, ite_eq_left_iff, reduceCtorEq, imp_false, not_not]

theorem promised_of_settled {settings : Settings} {expression : Expression} {request : Request}
    {outputs : Nat} {stepLimit : UInt64} {store after : SparseStore} {journal : Journal}
    {result : Result}
    (settled : settings.Settled expression request outputs stepLimit store journal result after) :
    Promised outputs result := by
  cases settled with
  | returned length => exact length
  | aborted reached aborts => exact Or.inl aborts.not_fatal
  | exhausted => exact Or.inr rfl
  | declined declined =>
      rcases declined with ⟨_, _, _, _, _, _, _, refused⟩
      exact absurd refused (SparseStore.set_ne_error _ _ _ _ _)

variable {program : Program} {context : Context} {outputs outputs' : Nat} {result result' : Result}

theorem trial?_eq_some_iff :
    trial? program context outputs = some result ↔
      ∃ expression, Settings.standard.deploy program context.bounds [outputs] = .ok expression ∧
        (Settings.standard.evaluateWithLimit expression { context } stepLimit
          ({} : SparseStore)).1 = result := by
  unfold trial?
  cases Settings.standard.deploy program context.bounds [outputs] with
  | error rejection => simp
  | ok expression => simp

/-- A context satisfies its own bounds, so a trial is the evaluation of what was certified. -/
theorem promised_of_trial? (tried : trial? program context outputs = some result) :
    Promised outputs result := by
  rcases trial?_eq_some_iff.mp tried with ⟨expression, deployed, rfl⟩
  have supported : Settings.standard.layout.Supported := Or.inr rfl
  have entry : [outputs][({ context } : Request).source]? = some outputs := rfl
  exact promised_of_settled (Settings.evaluateWithLimit_settled deployed supported entry
    (Context.bounds_satisfiedBy context) stepLimit ({} : SparseStore) {})

theorem eq_of_trial? (tried : trial? program context outputs = some result)
    (tried' : trial? program context outputs' = some result') : outputs = outputs' := by
  rcases trial?_eq_some_iff.mp tried with ⟨expression, deployed, _⟩
  rcases trial?_eq_some_iff.mp tried' with ⟨expression', deployed', _⟩
  exact Settings.eq_of_deploy deployed deployed' 0 rfl rfl

theorem trial?_of_ne (tried : trial? program context outputs = some result)
    (other : outputs ≠ outputs') : trial? program context outputs' = none := by
  cases tried' : trial? program context outputs' with
  | none => rfl
  | some result' => exact absurd (eq_of_trial? tried tried') other

/-- Since no promise is broken, all numbers of values are tried. -/
theorem trials_eq (program : Program) (context : Context) (counts : List Nat) :
    trials program context counts = (counts.filterMap (trial? program context), none) := by
  induction counts with
  | nil => rfl
  | cons outputs counts ih =>
      rw [trials, ih]
      cases tried : trial? program context outputs with
      | none => rw [List.filterMap_cons_none tried]
      | some result =>
          rw [List.filterMap_cons_some tried]
          simp only [violation?_eq_none_iff.mpr (promised_of_trial? tried)]

theorem length_results_le_one {counts : List Nat} (distinct : counts.Nodup) :
    (counts.filterMap (trial? program context)).length ≤ 1 := by
  rw [List.length_filterMap_eq_countP]
  by_cases accepted : ∃ outputs result, trial? program context outputs = some result
  · rcases accepted with ⟨outputs, result, tried⟩
    calc counts.countP (fun other => (trial? program context other).isSome)
        ≤ counts.count outputs := by
          apply List.countP_mono_left
          intro other _ someResult
          rcases Option.isSome_iff_exists.mp someResult with ⟨result', tried'⟩
          exact beq_iff_eq.mpr (eq_of_trial? tried' tried)
      _ ≤ 1 := List.nodup_iff_count_le_one.mp distinct outputs
  · have none : counts.countP (fun other => (trial? program context other).isSome) = 0 := by
      apply List.countP_eq_zero.mpr
      intro other _ someResult
      exact accepted ⟨other, Option.isSome_iff_exists.mp someResult⟩
    omega

/-- The data is cut into pieces of which each is short enough to write a word. -/
theorem wordsOf_eq_map (data : List UInt8) :
    ∃ pieces : List (List UInt8), pieces.flatten = data ∧
      (∀ piece ∈ pieces, 0 < piece.length ∧ piece.length ≤ 32) ∧
      wordsOf data = pieces.map Word.ofBigEndian := by
  induction data using wordsOf.induct with
  | case1 => exact ⟨[], rfl, by simp, by rw [wordsOf, List.map_nil]⟩
  | case2 byte bytes ih =>
      rcases ih with ⟨pieces, joined, short, words⟩
      refine ⟨(byte :: bytes).take 32 :: pieces, ?_, ?_, ?_⟩
      · rw [List.flatten_cons, joined, List.take_append_drop]
      · intro piece member
        rcases List.mem_cons.mp member with rfl | inRest
        · rw [List.length_take, List.length_cons]
          omega
        · exact short piece inRest
      · rw [wordsOf, words, List.map_cons]

/-- A program that is read is tried with all the numbers of values. -/
theorem replay_of_decode {bytes : List UInt8}
    (decoded : Codec.decode (splitInput bytes).1 = .ok program) :
    replay bytes =
      ([0, 1, 2, 3].filterMap (trial? program (contextOf (splitInput bytes).2)), none) := by
  have written : Codec.encode program = (splitInput bytes).1 :=
    (Codec.decode_eq_ok_iff.mp decoded).1.symm
  simp only [replay, decoded, written, ↓reduceIte, trials_eq]

/--
Replaying a byte string never finds a promise broken, and it gives one result at
most. Every operation that it needs is defined: tier reports of the standard layout
have all their results, and no word is read from more than 32 bytes. If the first
part of the bytes is read as a program, it is the binary form of that program; the
results are those of all trials, each with the certified number of values or a
failure that is no fault of certification; and the program is accepted for one
number of values at most.
-/
theorem replay_breaks_no_promise (bytes : List UInt8) :
    let code := (splitInput bytes).1
    let data := (splitInput bytes).2
    let context := contextOf data
    (replay bytes).2 = none ∧ (replay bytes).1.length ≤ 1 ∧
    Settings.standard.layout.Complete ∧
    (∃ pieces : List (List UInt8), pieces.flatten = data ∧
      (∀ piece ∈ pieces, 0 < piece.length ∧ piece.length ≤ 32) ∧
      wordsOf data = pieces.map Word.ofBigEndian) ∧
    ∀ program, Codec.decode code = .ok program →
      Codec.encode program = code ∧
      (replay bytes).1 = [0, 1, 2, 3].filterMap (trial? program context) ∧
      (∀ outputs outputs' expression expression',
        Settings.standard.deploy program context.bounds [outputs] = .ok expression →
        Settings.standard.deploy program context.bounds [outputs'] = .ok expression' →
        outputs = outputs') ∧
      ∀ outputs result, trial? program context outputs = some result →
        Promised outputs result := by
  intro code data context
  have kept : (replay bytes).2 = none ∧ (replay bytes).1.length ≤ 1 := by
    cases decoded : Codec.decode code with
    | error failure =>
        change Codec.decode (splitInput bytes).1 = .error failure at decoded
        simp [replay, decoded]
    | ok program =>
        rw [replay_of_decode decoded]
        exact ⟨rfl, length_results_le_one (by decide)⟩
  have supported : Settings.standard.layout.Supported := Or.inr rfl
  refine ⟨kept.1, kept.2, supported.complete, wordsOf_eq_map data, ?_⟩
  intro program decoded
  refine ⟨(Codec.decode_eq_ok_iff.mp decoded).1.symm, ?_, ?_, ?_⟩
  · rw [replay_of_decode decoded]
  · intro outputs outputs' expression expression' deployed deployed'
    exact Settings.eq_of_deploy deployed deployed' 0 rfl rfl
  · intro outputs result tried
    exact promised_of_trial? tried

/-- The cell that the program returns is written by a single byte of data. -/
theorem replay_breaks_no_promise_cell :
    let program : Program := ⟨#[#[0x02, 0x00]], #[]⟩
    let bytes : List UInt8 := Codec.encode program ++ delimiter ++ [9]
    Codec.decode (splitInput bytes).1 = .ok program ∧ replay bytes = ([.ok [9]], none) := by
  intro program bytes
  have decoded : Codec.decode (splitInput bytes).1 = .ok program := by decide +kernel
  have cells : contextOf (splitInput bytes).2 = ⟨[[9], [9]]⟩ := by
    have data : (splitInput bytes).2 = [9] := by decide +kernel
    simp [data, contextOf, wordsOf, Word.ofBigEndian, Bytes.ofBigEndian]
  have returned :
      let evaluated := Settings.standard.evaluateWithLimit ⟨program, ⟨[1, 1]⟩, [1], [1]⟩
        { context := ⟨[[9], [9]]⟩ } stepLimit ({} : SparseStore)
      evaluated.1 = .ok [9] ∧ evaluated.2.store = {} :=
    Settings.evaluateWithLimit_of_runFor 2 rfl (by decide +kernel)
  have tried : trial? program ⟨[[9], [9]]⟩ 1 = some (.ok [9]) :=
    trial?_eq_some_iff.mpr ⟨_, by decide +kernel, returned.1⟩
  have results : [0, 1, 2, 3].filterMap (trial? program ⟨[[9], [9]]⟩) = [.ok [9]] := by
    rw [List.filterMap_cons_none (trial?_of_ne tried (by decide)), List.filterMap_cons_some tried,
      List.filterMap_cons_none (trial?_of_ne tried (by decide)),
      List.filterMap_cons_none (trial?_of_ne tried (by decide)), List.filterMap_nil]
  rcases replay_breaks_no_promise bytes with ⟨kept, _, _, _, promises⟩
  have found := (promises program decoded).2.1
  rw [cells, results] at found
  exact ⟨decoded, Prod.ext found kept⟩

end Replay

end StackCert
