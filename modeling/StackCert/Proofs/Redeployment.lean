import Mathlib.Data.List.Basic
import StackCert.Expression
import StackCert.Proofs.BinaryForm

/-!
# Writing and deploying again

Two validators look at a program. Certification follows the entry points and
what they call, and so finds that every source it comes to is a whole number of
instructions. Reading a written program looks at all of its sources. A deployed
expression can therefore be written, read and deployed again exactly if the
sources that no entry point calls are whole numbers of instructions too. A
program with half an instruction in a source that is never called is deployed,
and its written form is refused.
-/

namespace StackCert

namespace Program

variable {program : Program} {bounds : Bounds} {source position height outputs peak : Nat}

/-- The sources that the leading ones call, directly or through others, and these themselves. -/
inductive Reachable (program : Program) (entries : Nat) : Nat → Prop where
  | entry {source : Nat} (inside : source < entries) : Reachable program entries source
  | call {source : Nat} {code : Code} {instruction : Instruction} {call : CallOperand}
      (reached : Reachable program entries source)
      (found : program.sources[source]? = some code)
      (listed : instruction ∈ Instruction.listOfBytes code.toList)
      (named : instruction.call? = some call) : Reachable program entries call.source

/-- Balanced code ends at a whole number of instructions from where it starts. -/
theorem Balanced.size_mod_two
    (balanced : program.Balanced bounds source position height outputs peak) {code : Code}
    (found : program.sources[source]? = some code) : code.size % 2 = position % 2 := by
  induction balanced with
  | finish ended =>
      rcases ended with ⟨code', found', rfl⟩
      cases found.symm.trans found'
      rfl
  | run held assigned plain described enough admitted rest ih =>
      rw [ih found, Instruction.width, Nat.add_mod_right]
  | call held assigned named enough later callee rest ihCallee ihRest =>
      rw [ihRest found, Instruction.width, Nat.add_mod_right]

/-- The instructions from a position on are the one held there and those behind it. -/
theorem Holds.mem_cons {instruction other : Instruction}
    (held : program.Holds source position instruction) {code : Code}
    (found : program.sources[source]? = some code)
    (listed : other ∈ Instruction.listOfBytes (code.toList.drop position)) :
    other = instruction ∨
      other ∈ Instruction.listOfBytes (code.toList.drop (position + Instruction.width)) := by
  rcases held with ⟨code', found', heldThere⟩
  cases found.symm.trans found'
  rw [Code.listOfBytes_drop, heldThere] at listed
  exact List.mem_cons.mp listed

/-- Whatever balanced code calls is balanced. -/
theorem Balanced.callee_of_mem
    (balanced : program.Balanced bounds source position height outputs peak) {code : Code}
    (found : program.sources[source]? = some code) {instruction : Instruction} {call : CallOperand}
    (listed : instruction ∈ Instruction.listOfBytes (code.toList.drop position))
    (named : instruction.call? = some call) :
    ∃ calleePeak, program.Balanced bounds call.source 0 call.inputs call.outputs calleePeak := by
  induction balanced with
  | finish ended =>
      rcases ended with ⟨code', found', rfl⟩
      cases found.symm.trans found'
      rw [← Array.length_toList, List.drop_length] at listed
      simp [Instruction.listOfBytes] at listed
  | run held assigned plain described enough admitted rest ih =>
      rcases Holds.mem_cons held found listed with rfl | behind
      · rw [Instruction.call?_of_plain assigned plain] at named
        simp at named
      · exact ih found behind
  | call held assigned operand enough later callee rest ihCallee ihRest =>
      rcases Holds.mem_cons held found listed with rfl | behind
      · rw [Instruction.call?_of_call assigned, operand] at named
        cases named
        exact ⟨_, callee⟩
      · exact ihRest found behind

end Program

namespace Settings

variable {settings : Settings} {program : Program} {bounds : Bounds} {outputs : List Nat}
  {expression : Expression}

theorem balanced_of_reachable (deployed : settings.deploy program bounds outputs = .ok expression)
    {source : Nat} (reached : program.Reachable outputs.length source) :
    ∃ inputs final peak, program.Balanced bounds source 0 inputs final peak := by
  induction reached with
  | entry inside =>
      rcases deploy_eq_ok_iff.mp deployed with ⟨heights, accepted, _⟩
      rcases Certifier.balanced_of_check accepted (List.getElem?_eq_getElem inside) with
        ⟨peak, _, balanced⟩
      exact ⟨_, _, peak, balanced⟩
  | call reached found listed named ih =>
      rcases ih with ⟨inputs, final, peak, balanced⟩
      rcases balanced.callee_of_mem found listed named with ⟨calleePeak, calleeBalanced⟩
      exact ⟨_, _, calleePeak, calleeBalanced⟩

/-- Certification finds half an instruction wherever an entry point can come to it. -/
theorem even_of_reachable (deployed : settings.deploy program bounds outputs = .ok expression)
    {source : Nat} (reached : program.Reachable outputs.length source) {code : Code}
    (found : program.sources[source]? = some code) : code.size % 2 = 0 := by
  rcases balanced_of_reachable deployed reached with ⟨inputs, final, peak, balanced⟩
  exact balanced.size_mod_two found

/--
A deployed expression survives being written exactly if the sources that no entry
point calls are of even length. If one is not, reading refuses what was written.
-/
theorem redeploy_iff_unreachable_even
    (deployed : settings.deploy program bounds outputs = .ok expression)
    (sources : program.sources.size < 2 ^ 32)
    (codes : ∀ code ∈ program.sources, code.size < 2 ^ 32)
    (constants : program.constants.size < 2 ^ 32) :
    ((∃ decoded, Codec.decode expression.encode = .ok decoded ∧ decoded = program ∧
        settings.deploy decoded bounds outputs = .ok expression) ↔
      ∀ source code, program.sources[source]? = some code →
        ¬program.Reachable outputs.length source → code.size % 2 = 0) ∧
    ((∃ source code, program.sources[source]? = some code ∧
        ¬program.Reachable outputs.length source ∧ code.size % 2 = 1) →
      Codec.decode expression.encode = .error .malformedEncoding) := by
  have written : expression.encode = Codec.encode program := by
    rcases deploy_eq_ok_iff.mp deployed with ⟨heights, _, rfl⟩
    rfl
  have countable : program.Countable := ⟨sources, codes, constants⟩
  rw [written]
  refine ⟨⟨?_, ?_⟩, ?_⟩
  · rintro ⟨decoded, read, rfl, _⟩ source code found _
    exact (Codec.decode_eq_ok_iff.mp read).2.2 code (Array.mem_of_getElem? found)
  · intro unreachableEven
    have even : ∀ code ∈ program.sources, code.size % 2 = 0 := by
      intro code member
      rcases Array.mem_iff_getElem?.mp member with ⟨source, found⟩
      by_cases reached : program.Reachable outputs.length source
      · exact even_of_reachable deployed reached found
      · exact unreachableEven source code found reached
    exact ⟨program, Codec.decode_eq_ok_iff.mpr ⟨rfl, countable, even⟩, rfl, deployed⟩
  · rintro ⟨source, code, found, _, odd⟩
    exact Codec.decode_encode_of_odd countable (Array.mem_of_getElem? found) odd

/-- The second source is never called and is half an instruction: deployed, written, refused. -/
theorem deployed_not_read_back :
    let program : Program := ⟨#[#[0x00, 0], #[0x00]], #[1]⟩
    let expression : Expression := ⟨program, ⟨[]⟩, [1], [1]⟩
    Settings.standard.deploy program ⟨[]⟩ [1] = .ok expression ∧
      Codec.decode expression.encode = .error .malformedEncoding := by
  intro program expression
  constructor
  · decide +kernel
  · have countable : program.Countable := ⟨by decide, by decide, by decide⟩
    have half : (#[0x00] : Code) ∈ program.sources := by simp [program]
    exact Codec.decode_encode_of_odd countable half rfl

/-- A call into the second source; the third one is never called and can be read. -/
theorem redeploy_iff_unreachable_even_called :
    let program : Program := ⟨#[#[0x00, 0, 0x00, 1, 0x03, 0x91], #[0x12, 2], #[0x05, 0]], #[6, 7]⟩
    let expression : Expression := ⟨program, ⟨[]⟩, [1], [2]⟩
    Settings.standard.deploy program ⟨[]⟩ [1] = .ok expression ∧
      ∃ decoded, Codec.decode expression.encode = .ok decoded ∧ decoded = program ∧
        Settings.standard.deploy decoded ⟨[]⟩ [1] = .ok expression := by
  intro program expression
  have deployed : Settings.standard.deploy program ⟨[]⟩ [1] = .ok expression := by decide +kernel
  refine ⟨deployed, ?_⟩
  apply (redeploy_iff_unreachable_even deployed (by decide) (by decide) (by decide)).1.mpr
  intro source code found _
  have even : ∀ code ∈ program.sources, code.size % 2 = 0 := by decide
  exact even code (Array.mem_of_getElem? found)

end Settings

end StackCert
