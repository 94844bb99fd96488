import StackCert.Effect

/-!
# Programs

A program is a list of sources, each a string of instruction bytes, and the
constants they refer to. Sources hold no jumps, and a call names a later source,
so the instructions that a run of a source goes through can be listed
beforehand: `Program.unfold`.
-/

namespace StackCert

/-- The bytes of a source. -/
abbrev Code := Array UInt8

namespace Code

/-- The instruction at a byte position, unless it would reach past the end. -/
def instruction? (code : Code) (position : Nat) : Option Instruction :=
  match code[position]?, code[position + 1]? with
  | some opcode, some operand => some ⟨⟨opcode⟩, operand⟩
  | _, _ => none

/-- Whether an instruction at the position ends at a 64-bit address. -/
def addressable (position : Nat) : Bool := position + Instruction.width < UInt64.size

/-- Whether a source is a whole number of instructions. -/
def aligned (code : Code) : Bool := code.size % Instruction.width = 0

/-- Writes instructions one after the other. -/
def assemble (instructions : List Instruction) : Code :=
  (instructions.flatMap Instruction.bytes).toArray

theorem lt_size_of_instruction? {code : Code} {position : Nat} {instruction : Instruction}
    (found : code.instruction? position = some instruction) : position + 1 < code.size := by
  unfold instruction? at found
  split at found
  · rename_i operandFound
    exact (Array.getElem?_eq_some_iff.mp operandFound).1
  · simp at found

end Code

/-- The instructions written by a string of bytes; a last single byte writes none. -/
def Instruction.listOfBytes : List UInt8 → List Instruction
  | opcode :: operand :: bytes => ⟨⟨opcode⟩, operand⟩ :: listOfBytes bytes
  | _ => []

/-- Sources and the constants they refer to. -/
structure Program where
  sources : Array Code := #[]
  constants : Array Word := #[]
deriving DecidableEq, Repr

namespace Program

/-- All instructions of a source, which has to exist and to be a whole number of them. -/
def instructions (program : Program) (source : Nat) : Except Failure (List Instruction) :=
  match program.sources[source]? with
  | none => .error .operandOutOfBounds
  | some code =>
      if code.aligned then .ok (Instruction.listOfBytes code.toList)
      else .error .malformedEncoding

/-- The number of bytes of a source, zero for one that does not exist. -/
def sourceSize (program : Program) (source : Nat) : Nat :=
  match program.sources[source]? with
  | none => 0
  | some code => code.size

theorem sourceSize_sub_lt {program : Program} {source position : Nat} {code : Code}
    {instruction : Instruction} (sourceFound : program.sources[source]? = some code)
    (found : code.instruction? position = some instruction) :
    program.sourceSize source - (position + Instruction.width) <
      program.sourceSize source - position := by
  have inside := Code.lt_size_of_instruction? found
  simp only [sourceSize, sourceFound, Instruction.width]
  omega

/--
The instructions from a position of a source on, in the order in which a run
meets them: after a call of a later source that exists come the instructions of
that source.
-/
def unfold (program : Program) (source position : Nat) : List Instruction :=
  match sourceFound : program.sources[source]? with
  | none => []
  | some code =>
      match found : code.instruction? position with
      | none => []
      | some instruction =>
          have _ := sourceSize_sub_lt sourceFound found
          let callee : List Instruction :=
            match instruction.call? with
            | none => []
            | some call =>
                if _ : source < call.source ∧ call.source < program.sources.size then
                  program.unfold call.source 0
                else []
          instruction :: callee ++ program.unfold source (position + Instruction.width)
termination_by (program.sources.size - source, program.sourceSize source - position)
decreasing_by
  · apply Prod.Lex.left
    omega
  · exact Prod.Lex.right _ (by assumption)

/-- The instructions that a call adds to those of its caller. -/
def unfoldCall (program : Program) (source : Nat) (instruction : Instruction) : List Instruction :=
  match instruction.call? with
  | none => []
  | some call =>
      if source < call.source ∧ call.source < program.sources.size then
        program.unfold call.source 0
      else []

theorem unfold_of_instruction? {program : Program} {source position : Nat} {code : Code}
    {instruction : Instruction} (sourceFound : program.sources[source]? = some code)
    (found : code.instruction? position = some instruction) :
    program.unfold source position =
      instruction :: program.unfoldCall source instruction ++
        program.unfold source (position + Instruction.width) := by
  rw [unfold]
  split
  · simp_all
  · rename_i sourceFound'
    cases sourceFound.symm.trans sourceFound'
    split
    · simp_all
    · rename_i found'
      cases found.symm.trans found'
      simp only [unfoldCall]
      cases instruction.call? with
      | none => rfl
      | some call => by_cases later : source < call.source ∧ call.source < program.sources.size <;>
          simp [later]

theorem unfold_of_instruction?_eq_none {program : Program} {source position : Nat} {code : Code}
    (sourceFound : program.sources[source]? = some code)
    (missing : code.instruction? position = none) : program.unfold source position = [] := by
  rw [unfold]
  split
  · rfl
  · rename_i sourceFound'
    cases sourceFound.symm.trans sourceFound'
    split
    · rfl
    · simp_all

end Program

end StackCert
