import Mathlib.Data.List.Infix
import StackCert.Replay

/-!
# Splitting at the delimiter

A byte string is split at the first place where the delimiter begins. Where code and
data are joined by a delimiter, it might begin earlier, in code that ends like it. The
delimiter has no border, however: no part of it is both its beginning and its end. One
that begins within the code, and that the code does not hold as a whole, would have its
end where the joining delimiter begins, and there is no room for the two.
-/

namespace StackCert

namespace Replay

/-- No proper end of the delimiter is its beginning. -/
theorem delimiter_borderless :
    ∀ start < delimiter.length, 0 < start → ¬delimiter.drop start <+: delimiter := by
  decide

variable {code sequence : List UInt8}

/-- No delimiter begins in code in front of the one that it is joined by. -/
theorem not_begins_early (nonempty : code ≠ []) (absent : ¬delimiter <+: code)
    (data : List UInt8) : ¬delimiter <+: code ++ (delimiter ++ data) := by
  intro begins
  rcases Nat.le_total delimiter.length code.length with long | short
  · apply absent
    exact List.prefix_of_prefix_length_le begins (List.prefix_append ..) long
  · -- the code is the beginning of a delimiter whose end meets the joining one
    rcases List.prefix_of_prefix_length_le (List.prefix_append ..) begins short with ⟨rest, joined⟩
    have meets : rest <+: delimiter ++ data := by
      apply (List.prefix_append_right_inj code).mp
      rw [joined]
      exact begins
    have length : code.length + rest.length = delimiter.length := by
      rw [← joined, List.length_append]
    have isRest : delimiter.drop code.length = rest := by
      rw [← joined, List.drop_left]
    have positive : 0 < code.length := List.length_pos_iff.mpr nonempty
    rcases Nat.lt_or_ge code.length delimiter.length with proper | whole
    · apply delimiter_borderless code.length proper positive
      rw [isRest]
      exact List.prefix_of_prefix_length_le meets (List.prefix_append ..) (by omega)
    · apply absent
      have empty : rest = [] := List.eq_nil_of_length_eq_zero (by omega)
      rw [← joined, empty, List.append_nil]

theorem splitInput_of_begins (begins : delimiter <+: sequence) :
    splitInput sequence = ([], sequence.drop delimiter.length) := by
  cases sequence with
  | nil => exact absurd begins (by decide)
  | cons byte bytes => rw [splitInput, if_pos (List.isPrefixOf_iff_prefix.mpr begins)]

theorem splitInput_cons {byte : UInt8} (absent : ¬delimiter <+: byte :: sequence) :
    splitInput (byte :: sequence) =
      (byte :: (splitInput sequence).1, (splitInput sequence).2) := by
  rw [splitInput, if_neg (mt List.isPrefixOf_iff_prefix.mp absent)]

theorem splitInput_of_absent (absent : ¬delimiter <:+: sequence) :
    splitInput sequence = (sequence, []) := by
  induction sequence with
  | nil => rfl
  | cons byte sequence ih =>
      rw [List.infix_cons_iff, not_or] at absent
      rw [splitInput_cons absent.1, ih absent.2]

theorem splitInput_join (absent : ¬delimiter <:+: code) (data : List UInt8) :
    splitInput (code ++ (delimiter ++ data)) = (code, data) := by
  induction code with
  | nil =>
      rw [List.nil_append, splitInput_of_begins (List.prefix_append ..), List.drop_left]
  | cons byte code ih =>
      have notHere : ¬delimiter <+: byte :: (code ++ (delimiter ++ data)) :=
        not_begins_early (List.cons_ne_nil byte code) (mt List.IsPrefix.isInfix absent) data
      rw [List.infix_cons_iff, not_or] at absent
      rw [List.cons_append, splitInput_cons notHere, ih absent.2]

/-- What a sequence with a delimiter is split into gives it back. -/
theorem join_splitInput (present : delimiter <:+: sequence) :
    (splitInput sequence).1 ++ (delimiter ++ (splitInput sequence).2) = sequence ∧
      ¬delimiter <:+: (splitInput sequence).1 := by
  induction sequence with
  | nil => exact absurd present (by decide)
  | cons byte sequence ih =>
      by_cases begins : delimiter <+: byte :: sequence
      · rw [splitInput_of_begins begins]
        refine ⟨?_, show ¬delimiter <:+: [] by decide⟩
        exact List.prefix_iff_eq_append.mp begins
      · rcases ih ((List.infix_cons_iff.mp present).resolve_left begins) with ⟨joined, absent⟩
        rw [splitInput_cons begins]
        refine ⟨congrArg (byte :: ·) joined, ?_⟩
        rw [List.infix_cons_iff, not_or]
        refine ⟨?_, absent⟩
        intro early
        apply begins
        rw [← joined, ← List.cons_append]
        exact early.trans (List.prefix_append ..)

/--
Splitting and joining are inverse to each other. Code that holds no delimiter is found
again with any data behind the delimiter, whatever the code ends with and the data
holds, and without delimiter and data it is all code. Conversely, a sequence with a
delimiter is its two parts joined by one, and none is held by the first.
-/
theorem splitting_inverts_joining (code data : List UInt8) (absent : ¬delimiter <:+: code) :
    splitInput (code ++ delimiter ++ data) = (code, data) ∧ splitInput code = (code, []) ∧
    ∀ sequence, delimiter <:+: sequence →
      (splitInput sequence).1 ++ delimiter ++ (splitInput sequence).2 = sequence ∧
        ¬delimiter <:+: (splitInput sequence).1 := by
  simp only [List.append_assoc]
  exact ⟨splitInput_join absent data, splitInput_of_absent absent,
    fun _ present => join_splitInput present⟩

/-- The code ends with all but the last byte of a delimiter, and the data begins with one. -/
theorem splitting_inverts_joining_near :
    let code : List UInt8 := [0x01, 0xde, 0xad, 0xbe]
    let data : List UInt8 := delimiter ++ [0xef]
    ¬delimiter <:+: code ∧ splitInput (code ++ delimiter ++ data) = (code, data) ∧
      splitInput code = (code, []) := by
  intro code data
  have absent : ¬delimiter <:+: code := by decide
  rcases splitting_inverts_joining code data absent with ⟨joined, alone, _⟩
  exact ⟨absent, joined, alone⟩

end Replay

end StackCert
