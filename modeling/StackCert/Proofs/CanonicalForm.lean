import StackCert.Proofs.BinaryForm

/-!
# Every program has one written form

What is decoded is the written form of the program that comes out of it, byte
for byte. So two byte strings never stand for one program, and a number of items
that is written wider than it needs to be is refused at whatever depth it
occurs.

Written forms are also told apart without a mark at their ends. A reader that
leaves what comes behind alone cannot take one written form for the start of
another (`Codec.Reads.unique`), and so neither a part of a decoded byte string
nor a continuation of it is decoded.
-/

namespace StackCert

namespace Codec

variable {α : Type}

/-- No written form is the start of another one. -/
theorem Reads.unique {read : List UInt8 → Option (α × List UInt8)} {encode : α → List UInt8}
    {valid : α → Prop} (reads : Reads read encode valid) {left right : α}
    {leftRest rightRest : List UInt8} (leftValid : valid left) (rightValid : valid right)
    (same : encode left ++ leftRest = encode right ++ rightRest) :
    left = right ∧ leftRest = rightRest := by
  have leftFound : read (encode left ++ leftRest) = some (left, leftRest) :=
    reads.accepts.mpr ⟨rfl, leftValid⟩
  have rightFound : read (encode left ++ leftRest) = some (right, rightRest) :=
    reads.accepts.mpr ⟨same, rightValid⟩
  have equal := Option.some.inj (leftFound.symm.trans rightFound)
  exact Prod.mk.inj equal

/-- There is one reason to refuse a byte string. -/
theorem eq_malformedEncoding_of_decode {bytes : List UInt8} {failure : Failure}
    (refused : decode bytes = .error failure) : failure = .malformedEncoding := by
  unfold decode at refused
  split at refused
  · split at refused
    · simp at refused
    · cases refused
      rfl
  · cases refused
    rfl

theorem decode_eq_malformedEncoding {bytes : List UInt8}
    (refused : ∀ program, decode bytes ≠ .ok program) :
    decode bytes = .error .malformedEncoding := by
  cases decoded : decode bytes with
  | error failure => rw [eq_malformedEncoding_of_decode decoded]
  | ok program => exact absurd decoded (refused program)

/-- Of two byte strings that are decoded neither is a proper part of the other. -/
theorem eq_of_isPrefix_of_decode {shorter longer : List UInt8} {first second : Program}
    (firstDecoded : decode shorter = .ok first) (secondDecoded : decode longer = .ok second)
    (starts : shorter <+: longer) : shorter = longer := by
  rcases decode_eq_ok_iff.mp firstDecoded with ⟨rfl, firstCountable, _⟩
  rcases decode_eq_ok_iff.mp secondDecoded with ⟨rfl, secondCountable, _⟩
  rcases starts with ⟨rest, continued⟩
  have same : encode first ++ rest = encode second ++ [] := by
    rw [continued, List.append_nil]
  have equal := (reads_program.unique firstCountable secondCountable same).1
  rw [equal]

/--
Decoding is canonical. The program that comes out of a byte string is written as
that byte string, no other one is decoded to it, and the byte strings that are
decoded are those of programs in whole instructions. All others are malformed.
-/
theorem decode_canonical (bytes : List UInt8) :
    (∀ program, decode bytes = .ok program →
      encode program = bytes ∧ ∀ code ∈ program.sources, code.size % 2 = 0) ∧
    (∀ other program, decode bytes = .ok program → decode other = .ok program →
      other = bytes) ∧
    ((∃ program, decode bytes = .ok program) ↔
      ∃ program : Program, program.Countable ∧
        (∀ code ∈ program.sources, code.size % 2 = 0) ∧ encode program = bytes) ∧
    ((¬∃ program, decode bytes = .ok program) → decode bytes = .error .malformedEncoding) := by
  refine ⟨?_, ?_, ⟨?_, ?_⟩, ?_⟩
  · intro program decoded
    rcases decode_eq_ok_iff.mp decoded with ⟨written, _, even⟩
    exact ⟨written.symm, even⟩
  · intro other program decoded otherDecoded
    rw [(decode_eq_ok_iff.mp otherDecoded).1, (decode_eq_ok_iff.mp decoded).1]
  · rintro ⟨program, decoded⟩
    rcases decode_eq_ok_iff.mp decoded with ⟨written, countable, even⟩
    exact ⟨program, countable, even, written.symm⟩
  · rintro ⟨program, countable, even, written⟩
    exact ⟨program, decode_eq_ok_iff.mpr ⟨written.symm, countable, even⟩⟩
  · intro refused
    exact decode_eq_malformedEncoding (not_exists.mp refused)

/-- The program without sources and constants, and its form with a wider number of sources. -/
example : decode [0x00, 0x00] = .ok {} ∧ decode [0x01, 0x00, 0x00] = .error .malformedEncoding := by
  cbv

/-- A byte string that is decoded is no longer decoded once it is cut or continued. -/
theorem decode_prefix_free {bytes : List UInt8} {program : Program}
    (decoded : decode bytes = .ok program) :
    (∀ cut, cut <+: bytes → cut ≠ bytes → decode cut = .error .malformedEncoding) ∧
    (∀ continued, bytes <+: continued → continued ≠ bytes →
      decode continued = .error .malformedEncoding) := by
  constructor
  · intro cut starts proper
    apply decode_eq_malformedEncoding
    intro other cutDecoded
    exact proper (eq_of_isPrefix_of_decode cutDecoded decoded starts)
  · intro continued starts proper
    apply decode_eq_malformedEncoding
    intro other continuedDecoded
    exact proper (eq_of_isPrefix_of_decode decoded continuedDecoded starts).symm

/-- A source of 64 bytes, cut inside the two bytes of its length, and followed by one byte. -/
theorem decode_prefix_free_sixty_four :
    let bytes := encode ⟨#[Array.replicate 64 0x01], #[5]⟩
    decode bytes = .ok ⟨#[Array.replicate 64 0x01], #[5]⟩ ∧
      decode (bytes.take 2) = .error .malformedEncoding ∧
      decode (bytes ++ [0x00]) = .error .malformedEncoding := by
  intro bytes
  have decoded : decode bytes = .ok ⟨#[Array.replicate 64 0x01], #[5]⟩ := by
    apply decode_eq_ok_iff.mpr
    refine ⟨rfl, ⟨by decide, ?_, by decide⟩, ?_⟩
    · intro code member
      simp_all
    · intro code member
      simp_all
  have long : bytes.length = 100 := by decide +kernel
  refine ⟨decoded, ?_, ?_⟩
  · refine (decode_prefix_free decoded).1 _ (List.take_prefix 2 bytes) ?_
    intro whole
    have length := congrArg List.length whole
    rw [List.length_take, long] at length
    omega
  · refine (decode_prefix_free decoded).2 _ (List.prefix_append bytes [0x00]) ?_
    intro same
    have length := congrArg List.length same
    rw [List.length_append, List.length_singleton] at length
    omega

end Codec

end StackCert
