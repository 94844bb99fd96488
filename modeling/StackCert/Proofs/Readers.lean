import StackCert.Proofs.Erasure

/-!
# The readers of code

The bytes of a source are read in two ways. `Program.instructions` lists them in pairs
and refuses a source with a byte left over. The machine reads a single instruction at
the position of its frame and goes on behind it; `Code.scan` is this reading kept up
until there is no instruction. Both find what `Code.assemble` has written. They differ
in a source of odd length only, where the scan comes to the last byte without noticing
that it is one: what tells a source that ended from one that is cut is the position at
which the scan stops.
-/

namespace StackCert

namespace Instruction

/-- The instructions of a string are written by its bytes up to an even number. -/
theorem flatMap_bytes_listOfBytes (bytes : List UInt8) :
    (listOfBytes bytes).flatMap Instruction.bytes =
      bytes.take (width * (bytes.length / width)) := by
  fun_induction listOfBytes bytes with
  | case1 opcode operand bytes ih =>
      have pairs : width * ((opcode :: operand :: bytes).length / width) =
          width * (bytes.length / width) + 2 := by
        simp only [List.length_cons, width]
        omega
      rw [pairs, List.flatMap_cons, ih]
      rfl
  | case2 bytes short =>
      rcases bytes with _ | ⟨opcode, _ | ⟨operand, bytes⟩⟩
      · rfl
      · simp [width]
      · exact absurd rfl (short opcode operand bytes)

end Instruction

namespace Code

/-- The instructions read one after the other from a position on, and where there is none left. -/
def scan (code : Code) (position : Nat) : List Instruction × Nat :=
  match found : code.instruction? position with
  | none => ([], position)
  | some instruction =>
      have _ := lt_size_of_instruction? found
      let rest := code.scan (position + Instruction.width)
      (instruction :: rest.1, rest.2)
termination_by code.size - position
decreasing_by
  simp only [Instruction.width]
  omega

/-- A scan reads pairs of bytes while there are two left. -/
theorem scan_eq (code : Code) (position : Nat) :
    code.scan position =
      (Instruction.listOfBytes (code.toList.drop position),
        position + Instruction.width * ((code.size - position) / Instruction.width)) := by
  fun_induction scan code position with
  | case1 position missing =>
      have outside := instruction?_eq_none_iff.mp missing
      have none : (code.size - position) / Instruction.width = 0 := by
        simp only [Instruction.width]
        omega
      rw [listOfBytes_drop, missing, none]
      rfl
  | case2 position instruction found inside rest ih =>
      have stops : position + Instruction.width +
          Instruction.width * ((code.size - (position + Instruction.width)) / Instruction.width) =
          position + Instruction.width * ((code.size - position) / Instruction.width) := by
        simp only [Instruction.width]
        omega
      rw [listOfBytes_drop, found, ← stops]
      simp only [rest, ih]

theorem scan_zero (code : Code) :
    code.scan 0 = (Instruction.listOfBytes code.toList,
      Instruction.width * (code.size / Instruction.width)) := by
  rw [scan_eq, List.drop_zero, Nat.zero_add, Nat.sub_zero]

end Code

namespace Program

variable {program : Program} {source : Nat} {code : Code}

theorem instructions_of_aligned (found : program.sources[source]? = some code)
    (aligned : code.aligned = true) :
    program.instructions source = .ok (Instruction.listOfBytes code.toList) := by
  simp only [instructions, found, aligned, ↓reduceIte]

theorem instructions_of_misaligned (found : program.sources[source]? = some code)
    (misaligned : code.aligned = false) :
    program.instructions source = .error .malformedEncoding := by
  simp only [instructions, found, misaligned, Bool.false_eq_true, ↓reduceIte]

/--
The readers of code agree. The instructions of a source that was assembled are those it
was assembled from. A source of even length is written by its instructions, and scanning
it finds the same instructions and stops at its end. In a source of odd length the scan
finds half as many instructions as there are bytes, rounded down, which write all bytes
but the last; it stops at the last byte, and listing the instructions is refused.
-/
theorem code_readers_agree (program : Program) (source : Nat) (code : Code)
    (found : program.sources[source]? = some code) :
    (∀ instructions, code = .assemble instructions →
      program.instructions source = .ok instructions) ∧
    (code.size % 2 = 0 → ∃ instructions, program.instructions source = .ok instructions ∧
      instructions.flatMap Instruction.bytes = code.toList ∧
      code.scan 0 = (instructions, code.size)) ∧
    (code.size % 2 = 1 → program.instructions source = .error .malformedEncoding ∧
      ∃ instructions, code.scan 0 = (instructions, code.size - 1) ∧
        instructions.length = code.size / 2 ∧
        instructions.flatMap Instruction.bytes = code.toList.dropLast) := by
  have written := Instruction.flatMap_bytes_listOfBytes code.toList
  rw [Array.length_toList] at written
  refine ⟨?_, ?_, ?_⟩
  · rintro instructions rfl
    rw [instructions_of_aligned found (Code.aligned_assemble instructions),
      Code.listOfBytes_assemble]
  · intro even
    have whole : Instruction.width * (code.size / Instruction.width) = code.size := by
      simp only [Instruction.width]
      omega
    refine ⟨_, instructions_of_aligned found (Code.aligned_iff.mpr even), ?_, ?_⟩
    · rw [written, whole]
      exact List.take_of_length_le (Nat.le_of_eq Array.length_toList)
    · rw [Code.scan_zero, whole]
  · intro odd
    have misaligned : code.aligned = false := by
      rw [← Bool.not_eq_true, Code.aligned_iff]
      omega
    have allButLast : Instruction.width * (code.size / Instruction.width) = code.size - 1 := by
      simp only [Instruction.width]
      omega
    refine ⟨instructions_of_misaligned found misaligned,
      Instruction.listOfBytes code.toList, ?_, ?_, ?_⟩
    · rw [Code.scan_zero, allButLast]
    · rw [Instruction.length_listOfBytes, Array.length_toList]
      rfl
    · rw [written, allButLast, List.dropLast_eq_take, Array.length_toList]

/-- An assembled source and the same with one more byte, which looks like the end to a scan. -/
theorem code_readers_agree_cut :
    let instructions : List Instruction := [⟨⟨0x00⟩, 0⟩, ⟨⟨0xfe⟩, 7⟩]
    let whole : Code := .assemble instructions
    let cut : Code := #[0x00, 0, 0xfe, 7, 0x10]
    let program : Program := ⟨#[whole, cut], #[]⟩
    program.instructions 0 = .ok instructions ∧ whole.scan 0 = (instructions, 4) ∧
      program.instructions 1 = .error .malformedEncoding ∧
      ∃ read, cut.scan 0 = (read, 4) ∧ read.length = 2 := by
  intro instructions whole cut program
  rcases code_readers_agree program 0 whole rfl with ⟨assembled, even, _⟩
  rcases code_readers_agree program 1 cut rfl with ⟨_, _, odd⟩
  rcases even (by decide) with ⟨listed, isListed, _, scanned⟩
  cases (assembled instructions rfl).symm.trans isListed
  rcases odd (by decide) with ⟨refused, read, stopped, count, _⟩
  exact ⟨isListed, scanned, refused, read, stopped, count.trans (by decide)⟩

end Program

end StackCert
