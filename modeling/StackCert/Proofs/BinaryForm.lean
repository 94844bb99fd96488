import Mathlib.Algebra.Group.Nat.Defs
import StackCert.Codec
import StackCert.Proofs.Outline

/-!
# Reading undoes writing

`Codec.Reads` says that a reader takes exactly what a writer writes: it accepts a
byte string with an item at its front if and only if the string starts with the
written form of that item and the item is one that can be written. It leaves
what comes behind alone. The statement is one for numbers of items, in each of
their four forms, for lists of items, for sources, for constants and for whole
programs, and each is put together from those of its parts.

A program is decoded from a byte string that is its written form and nothing
else, provided that all of its sources are a whole number of instructions.
-/

namespace StackCert

namespace Bytes

theorem ofLittleEndian_littleEndian {width number : Nat} (small : number < 256 ^ width) :
    ofLittleEndian (littleEndian width number) = number := by
  induction width generalizing number with
  | zero =>
      rw [Nat.pow_zero, Nat.lt_one_iff] at small
      exact small.symm
  | succ width ih =>
      have smaller : number / 256 < 256 ^ width := by
        rw [Nat.pow_succ] at small
        omega
      have byte : (UInt8.ofNat (number % 256)).toNat = number % 256 := by
        simp
      rw [littleEndian, ofLittleEndian, ih smaller, byte]
      omega

theorem littleEndian_ofLittleEndian (bytes : List UInt8) :
    littleEndian bytes.length (ofLittleEndian bytes) = bytes := by
  induction bytes with
  | nil => rfl
  | cons byte bytes ih =>
      have small := byte.toNat_lt
      have low : (byte.toNat + 256 * ofLittleEndian bytes) % 256 = byte.toNat := by omega
      have high : (byte.toNat + 256 * ofLittleEndian bytes) / 256 = ofLittleEndian bytes := by omega
      rw [List.length_cons, ofLittleEndian, littleEndian, low, high, ih, UInt8.ofNat_toNat]

theorem ofLittleEndian_lt (bytes : List UInt8) :
    ofLittleEndian bytes < 256 ^ bytes.length := by
  induction bytes with
  | nil => simp [ofLittleEndian]
  | cons byte bytes ih =>
      have small := byte.toNat_lt
      rw [ofLittleEndian, List.length_cons, Nat.pow_succ]
      omega

theorem split?_eq_some_iff {count : Nat} {bytes front rest : List UInt8} :
    split? count bytes = some (front, rest) ↔ bytes = front ++ rest ∧ front.length = count := by
  simp only [split?]
  constructor
  · intro found
    split at found
    · rename_i enough
      simp only [Option.some.injEq, Prod.mk.injEq] at found
      rcases found with ⟨rfl, rfl⟩
      exact ⟨(List.take_append_drop count bytes).symm, List.length_take_of_le enough⟩
    · simp at found
  · rintro ⟨rfl, rfl⟩
    simp

end Bytes

namespace Codec

variable {α : Type}

/-- A reader accepts exactly the written forms of valid items, whatever follows them. -/
structure Reads (read : List UInt8 → Option (α × List UInt8)) (encode : α → List UInt8)
    (valid : α → Prop) : Prop where
  accepts : ∀ {bytes : List UInt8} {item : α} {rest : List UInt8},
    read bytes = some (item, rest) ↔ bytes = encode item ++ rest ∧ valid item

theorem Reads.congr {read : List UInt8 → Option (α × List UInt8)} {encode : α → List UInt8}
    {valid valid' : α → Prop} (reads : Reads read encode valid)
    (same : ∀ item, valid item ↔ valid' item) : Reads read encode valid' := by
  constructor
  intro bytes item rest
  rw [← same]
  exact reads.accepts

theorem reads_number (width least : Nat) :
    Reads (readNumber width least) (Bytes.littleEndian width)
      (fun number => least ≤ number ∧ number < 256 ^ width) := by
  constructor
  intro bytes number rest
  unfold readNumber
  constructor
  · intro found
    split at found
    · simp at found
    · rename_i digits rest' parted
      rcases Bytes.split?_eq_some_iff.mp parted with ⟨rfl, rfl⟩
      simp only at found
      split at found
      · rename_i large
        simp only [Option.some.injEq, Prod.mk.injEq] at found
        rcases found with ⟨rfl, rfl⟩
        rw [Bytes.littleEndian_ofLittleEndian]
        exact ⟨rfl, large, Bytes.ofLittleEndian_lt digits⟩
      · simp at found
  · rintro ⟨rfl, large, small⟩
    have parted : Bytes.split? width (Bytes.littleEndian width number ++ rest) =
        some (Bytes.littleEndian width number, rest) :=
      Bytes.split?_eq_some_iff.mpr ⟨rfl, Bytes.length_littleEndian width number⟩
    simp only [parted, Bytes.ofLittleEndian_littleEndian small, large, ↓reduceIte]

/-- The first byte of a number has the remainder of the number modulo four. -/
theorem first_mod_four {width number : Nat} {first : UInt8} {bytes rest : List UInt8}
    (written : first :: bytes = Bytes.littleEndian (width + 1) number ++ rest) :
    first.toNat % 4 = number % 4 := by
  rw [Bytes.littleEndian, List.cons_append, List.cons.injEq] at written
  rw [written.1]
  simp

theorem exists_cons_littleEndian (width number : Nat) (rest : List UInt8) :
    ∃ first behind, Bytes.littleEndian (width + 1) number ++ rest = first :: behind :=
  ⟨_, _, rfl⟩

theorem encodeCount_of_readCount {bytes rest : List UInt8} {count : Nat}
    (found : readCount bytes = some (count, rest)) :
    bytes = encodeCount count ++ rest ∧ count < 2 ^ 32 := by
  unfold readCount at found
  split at found
  · simp at found
  · rename_i first behind
    -- The two lowest bits of the first byte name the form. The least number that is read in it
    -- is the first that has no shorter form.
    split at found
    · rename_i remainder
      simp only [Option.some.injEq, Prod.mk.injEq] at found
      rcases found with ⟨rfl, rfl⟩
      have small := first.toNat_lt
      have whole : 4 * (first.toNat / 4) = first.toNat := by omega
      have alone := Bytes.littleEndian_ofLittleEndian [first]
      simp only [Bytes.ofLittleEndian, List.length_singleton, Nat.mul_zero, Nat.add_zero] at alone
      rw [encodeCount, if_pos (by omega), whole, alone]
      exact ⟨rfl, by omega⟩
    · rename_i remainder
      rcases Option.map_eq_some_iff.mp found with ⟨⟨number, rest'⟩, numberFound, same⟩
      cases same
      rcases (reads_number _ _).accepts.mp numberFound with ⟨written, large, small⟩
      have last := first_mod_four written
      have whole : 4 * (number / 4) + 1 = number := by omega
      rw [encodeCount, if_neg (by omega), if_pos (by omega), whole]
      exact ⟨written, by omega⟩
    · rename_i remainder
      rcases Option.map_eq_some_iff.mp found with ⟨⟨number, rest'⟩, numberFound, same⟩
      cases same
      rcases (reads_number _ _).accepts.mp numberFound with ⟨written, large, small⟩
      have last := first_mod_four written
      have whole : 4 * (number / 4) + 2 = number := by omega
      rw [encodeCount, if_neg (by omega), if_neg (by omega), if_pos (by omega), whole]
      exact ⟨written, by omega⟩
    · split at found
      · rename_i marked
        rcases (reads_number _ _).accepts.mp found with ⟨rfl, large, small⟩
        rw [encodeCount, if_neg (by omega), if_neg (by omega), if_neg (by omega), marked]
        exact ⟨rfl, by omega⟩
      · simp at found

theorem readCount_encodeCount {count : Nat} (small : count < 2 ^ 32) (rest : List UInt8) :
    readCount (encodeCount count ++ rest) = some (count, rest) := by
  simp only [encodeCount]
  split
  · have byte : (UInt8.ofNat (4 * count % 256)).toNat = 4 * count := by
      simp
      omega
    simp [Bytes.littleEndian, readCount, byte]
  split
  · have found : readNumber 2 (4 * 0x40) (Bytes.littleEndian 2 (4 * count + 1) ++ rest) =
        some (4 * count + 1, rest) :=
      (reads_number _ _).accepts.mpr ⟨rfl, by omega, by omega⟩
    rcases exists_cons_littleEndian 1 (4 * count + 1) rest with ⟨first, behind, written⟩
    have last := first_mod_four written.symm
    have remainder : first.toNat % 4 = 1 := by omega
    rw [written] at found ⊢
    simp only [readCount, remainder, found, Option.map_some]
    congr 2
    omega
  split
  · have found : readNumber 4 (4 * 0x4000) (Bytes.littleEndian 4 (4 * count + 2) ++ rest) =
        some (4 * count + 2, rest) :=
      (reads_number _ _).accepts.mpr ⟨rfl, by omega, by omega⟩
    rcases exists_cons_littleEndian 3 (4 * count + 2) rest with ⟨first, behind, written⟩
    have last := first_mod_four written.symm
    have remainder : first.toNat % 4 = 2 := by omega
    rw [written] at found ⊢
    simp only [readCount, remainder, found, Option.map_some]
    congr 2
    omega
  · have found : readNumber 4 0x40000000 (Bytes.littleEndian 4 count ++ rest) =
        some (count, rest) :=
      (reads_number _ _).accepts.mpr ⟨rfl, by omega, by omega⟩
    simp [readCount, found]

theorem reads_count : Reads readCount encodeCount (fun count => count < 2 ^ 32) := by
  constructor
  intro bytes count rest
  constructor
  · exact encodeCount_of_readCount
  · rintro ⟨rfl, small⟩
    exact readCount_encodeCount small rest

/-- A number of items followed by a body of that size. -/
theorem reads_counted {readBody : Nat → List UInt8 → Option (α × List UInt8)}
    {encodeBody : α → List UInt8} {size : α → Nat} {valid : α → Prop}
    (reads : ∀ count, Reads (readBody count) encodeBody
      (fun item => size item = count ∧ valid item)) :
    Reads
      (fun bytes =>
        match readCount bytes with
        | none => none
        | some (count, rest) => readBody count rest)
      (fun item => encodeCount (size item) ++ encodeBody item)
      (fun item => size item < 2 ^ 32 ∧ valid item) := by
  constructor
  intro bytes item rest
  constructor
  · intro found
    split at found
    · simp at found
    · rename_i count behind counted
      rcases reads_count.accepts.mp counted with ⟨rfl, small⟩
      rcases (reads count).accepts.mp found with ⟨rfl, rfl, itemValid⟩
      exact ⟨(List.append_assoc ..).symm, small, itemValid⟩
  · rintro ⟨rfl, small, itemValid⟩
    have counted : readCount (encodeCount (size item) ++ (encodeBody item ++ rest)) =
        some (size item, encodeBody item ++ rest) := reads_count.accepts.mpr ⟨rfl, small⟩
    simp only [List.append_assoc, counted]
    exact (reads (size item)).accepts.mpr ⟨rfl, rfl, itemValid⟩

section Lists

variable {read : List UInt8 → Option (α × List UInt8)} {encode : α → List UInt8}
  {valid : α → Prop} (reads : Reads read encode valid)
include reads

theorem reads_many (count : Nat) :
    Reads (readMany read count) (fun items => items.flatMap encode)
      (fun items => items.length = count ∧ ∀ item ∈ items, valid item) := by
  constructor
  intro bytes items rest
  induction count generalizing bytes items with
  | zero =>
      simp only [readMany, Option.some.injEq, Prod.mk.injEq, List.length_eq_zero_iff]
      constructor
      · rintro ⟨rfl, rfl⟩
        simp
      · rintro ⟨written, rfl, _⟩
        exact ⟨rfl, by simpa using written⟩
  | succ count ih =>
      rw [readMany]
      constructor
      · intro found
        split at found
        · simp at found
        · rename_i item behind itemFound
          rcases Option.map_eq_some_iff.mp found with ⟨⟨items', rest'⟩, restFound, same⟩
          cases same
          rcases reads.accepts.mp itemFound with ⟨rfl, itemValid⟩
          rcases ih.mp restFound with ⟨rfl, rfl, restValid⟩
          refine ⟨by simp, rfl, ?_⟩
          rw [List.forall_mem_cons]
          exact ⟨itemValid, restValid⟩
      · rintro ⟨rfl, length, allValid⟩
        cases items with
        | nil => simp at length
        | cons item items =>
            rw [List.forall_mem_cons] at allValid
            have itemFound : read (encode item ++ (items.flatMap encode ++ rest)) =
                some (item, items.flatMap encode ++ rest) := reads.accepts.mpr ⟨rfl, allValid.1⟩
            have restFound : readMany read count (items.flatMap encode ++ rest) =
                some (items, rest) := ih.mpr ⟨rfl, by simpa using length, allValid.2⟩
            simp [itemFound, restFound]

theorem reads_list :
    Reads (readList read) (encodeList encode)
      (fun items => items.length < 2 ^ 32 ∧ ∀ item ∈ items, valid item) :=
  reads_counted (reads_many reads)

end Lists

theorem reads_code : Reads readCode encodeCode (fun code => code.size < 2 ^ 32) := by
  have body : ∀ count, Reads
      (fun bytes => (Bytes.split? count bytes).map fun parts => (parts.1.toArray, parts.2))
      Array.toList (fun code => code.size = count ∧ True) := by
    intro count
    constructor
    intro bytes code rest
    simp only [Option.map_eq_some_iff, Prod.exists, Bytes.split?_eq_some_iff, Prod.mk.injEq,
      and_true]
    constructor
    · rintro ⟨front, behind, ⟨rfl, rfl⟩, rfl, rfl⟩
      simp
    · rintro ⟨rfl, rfl⟩
      exact ⟨code.toList, rest, ⟨rfl, rfl⟩, rfl, rfl⟩
  exact (reads_counted body).congr (by simp)

theorem reads_word : Reads readWord Word.littleEndian (fun _ => True) := by
  have capacity : 256 ^ 32 = 2 ^ 256 := by decide
  constructor
  intro bytes word rest
  simp only [readWord, Option.map_eq_some_iff, Prod.exists, Bytes.split?_eq_some_iff,
    Prod.mk.injEq, and_true]
  constructor
  · rintro ⟨digits, behind, ⟨rfl, length⟩, rfl, rfl⟩
    have small := Bytes.ofLittleEndian_lt digits
    rw [length, capacity] at small
    rw [Word.littleEndian, Word.ofLittleEndian, BitVec.toNat_ofNat, Nat.mod_eq_of_lt small,
      ← length, Bytes.littleEndian_ofLittleEndian]
  · rintro rfl
    have small : word.toNat < 256 ^ 32 := Nat.lt_of_lt_of_eq word.isLt capacity.symm
    refine ⟨word.littleEndian, rest, ⟨rfl, Bytes.length_littleEndian 32 _⟩, ?_, rfl⟩
    rw [Word.littleEndian, Word.ofLittleEndian, Bytes.ofLittleEndian_littleEndian small,
      BitVec.ofNat_toNat, BitVec.setWidth_eq]

end Codec

/-- All numbers of items of a program can be written. -/
structure Program.Countable (program : Program) : Prop where
  sources : program.sources.size < 2 ^ 32
  codes : ∀ code ∈ program.sources, code.size < 2 ^ 32
  constants : program.constants.size < 2 ^ 32

namespace Codec

theorem reads_program : Reads read encode Program.Countable := by
  have readsSources := reads_list reads_code
  have readsConstants := reads_list reads_word
  constructor
  intro bytes program rest
  rw [read]
  constructor
  · intro found
    split at found
    · simp at found
    · rename_i sources behind sourcesFound
      rcases Option.map_eq_some_iff.mp found with ⟨⟨constants, rest'⟩, constantsFound, same⟩
      cases same
      rcases readsSources.accepts.mp sourcesFound with ⟨rfl, few, codes⟩
      rcases readsConstants.accepts.mp constantsFound with ⟨rfl, fewConstants, _⟩
      refine ⟨by simp [encode], ?_, ?_, ?_⟩
      · simpa using few
      · simpa using codes
      · simpa using fewConstants
  · rintro ⟨rfl, countable⟩
    have sourcesFound : readList readCode (encode program ++ rest) =
        some (program.sources.toList,
          encodeList Word.littleEndian program.constants.toList ++ rest) := by
      apply readsSources.accepts.mpr
      refine ⟨by simp [encode], ?_, ?_⟩
      · simpa using countable.sources
      · simpa using countable.codes
    have constantsFound :
        readList readWord (encodeList Word.littleEndian program.constants.toList ++ rest) =
          some (program.constants.toList, rest) := by
      apply readsConstants.accepts.mpr
      refine ⟨rfl, ?_, ?_⟩
      · simpa using countable.constants
      · simp
    simp [sourcesFound, constantsFound]

theorem read_encode {program : Program} (countable : program.Countable) :
    read (encode program) = some (program, []) := by
  apply reads_program.accepts.mpr
  exact ⟨(List.append_nil _).symm, countable⟩

theorem all_aligned_iff {program : Program} :
    program.sources.all Code.aligned = true ↔ ∀ code ∈ program.sources, code.size % 2 = 0 := by
  rw [Array.all_eq_true_iff_forall_mem]
  exact forall₂_congr fun code _ => Code.aligned_iff

/-- A byte string is decoded exactly if it is the written form of a program in instructions. -/
theorem decode_eq_ok_iff {bytes : List UInt8} {program : Program} :
    decode bytes = .ok program ↔
      bytes = encode program ∧ program.Countable ∧
        ∀ code ∈ program.sources, code.size % 2 = 0 := by
  simp only [decode]
  constructor
  · intro decoded
    split at decoded
    · rename_i program' found
      split at decoded
      · rename_i aligned
        cases decoded
        rcases reads_program.accepts.mp found with ⟨written, countable⟩
        rw [List.append_nil] at written
        exact ⟨written, countable, all_aligned_iff.mp aligned⟩
      · simp at decoded
    · simp at decoded
  · rintro ⟨rfl, countable, even⟩
    simp only [read_encode countable, all_aligned_iff.mpr even, ↓reduceIte]

theorem decode_encode_of_odd {program : Program} (countable : program.Countable) {code : Code}
    (member : code ∈ program.sources) (odd : code.size % 2 = 1) :
    decode (encode program) = .error .malformedEncoding := by
  have misaligned : ¬program.sources.all Code.aligned = true := by
    intro aligned
    have even := all_aligned_iff.mp aligned code member
    omega
  simp only [decode, read_encode countable, misaligned, Bool.false_eq_true, ↓reduceIte]

/-- What was written is read back if every source is of even length, and refused otherwise. -/
theorem decode_encode_by_parity {program : Program} (sources : program.sources.size < 2 ^ 32)
    (codes : ∀ code ∈ program.sources, code.size < 2 ^ 32)
    (constants : program.constants.size < 2 ^ 32) :
    ((∀ code ∈ program.sources, code.size % 2 = 0) → decode (encode program) = .ok program) ∧
    ((∃ code ∈ program.sources, code.size % 2 = 1) →
      decode (encode program) = .error .malformedEncoding) := by
  have countable : program.Countable := ⟨sources, codes, constants⟩
  constructor
  · intro even
    exact decode_eq_ok_iff.mpr ⟨rfl, countable, even⟩
  · rintro ⟨code, member, odd⟩
    exact decode_encode_of_odd countable member odd

/-- A source whose length takes two bytes, alone and with one that ends in half an instruction. -/
theorem decode_encode_by_parity_sixty_four :
    let long : Code := Array.replicate 64 0x01
    decode (encode ⟨#[long], #[5]⟩) = .ok ⟨#[long], #[5]⟩ ∧
      decode (encode ⟨#[long, #[0x05]], #[5]⟩) = .error .malformedEncoding := by
  intro long
  have size : long.size = 64 := Array.size_replicate
  constructor
  · exact (decode_encode_by_parity (by simp) (by simp [size]) (by simp)).1 (by simp [size])
  · exact (decode_encode_by_parity (by simp) (by simp [size]) (by simp)).2
      ⟨#[0x05], by simp, rfl⟩

end Codec

end StackCert
