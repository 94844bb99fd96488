import StackCert.Program

/-!
# The binary form of a program

A program is written as the number of its sources, each source as its length
and its bytes, then the number of its constants and each constant as 32 bytes,
least significant first. Numbers of items are written in the shortest of four
forms, told apart by the two lowest bits of the first byte. Reading accepts only
the shortest form, no bytes after the program, and sources that are a whole
number of instructions. Reading does not certify what it reads.
-/

namespace StackCert

namespace Codec

/-- A number of items in its shortest form: one, two, four or five bytes. -/
def encodeCount (count : Nat) : List UInt8 :=
  if count < 0x40 then Bytes.littleEndian 1 (4 * count)
  else if count < 0x4000 then Bytes.littleEndian 2 (4 * count + 1)
  else if count < 0x40000000 then Bytes.littleEndian 4 (4 * count + 2)
  else 3 :: Bytes.littleEndian 4 count

/-- Reads a number of `width` bytes and keeps it if it is at least `least`. -/
def readNumber (width least : Nat) (bytes : List UInt8) : Option (Nat × List UInt8) :=
  match Bytes.split? width bytes with
  | none => none
  | some (digits, rest) =>
      let number := Bytes.ofLittleEndian digits
      if least ≤ number then some (number, rest) else none

/-- Reads a number of items, which has to be in its shortest form. -/
def readCount (bytes : List UInt8) : Option (Nat × List UInt8) :=
  match bytes with
  | [] => none
  | first :: rest =>
      match first.toNat % 4 with
      | 0 => some (first.toNat / 4, rest)
      | 1 => (readNumber 2 (4 * 0x40) bytes).map fun (number, rest) => (number / 4, rest)
      | 2 => (readNumber 4 (4 * 0x4000) bytes).map fun (number, rest) => (number / 4, rest)
      | _ => if first = 3 then readNumber 4 0x40000000 rest else none

/-- Reads the given number of items one after the other. -/
def readMany {α : Type} (read : List UInt8 → Option (α × List UInt8)) :
    Nat → List UInt8 → Option (List α × List UInt8)
  | 0, bytes => some ([], bytes)
  | count + 1, bytes =>
      match read bytes with
      | none => none
      | some (item, rest) => (readMany read count rest).map fun (items, rest) => (item :: items, rest)

/-- Reads items preceded by their number. -/
def readList {α : Type} (read : List UInt8 → Option (α × List UInt8)) (bytes : List UInt8) :
    Option (List α × List UInt8) :=
  match readCount bytes with
  | none => none
  | some (count, rest) => readMany read count rest

/-- Writes items preceded by their number. -/
def encodeList {α : Type} (encode : α → List UInt8) (items : List α) : List UInt8 :=
  encodeCount items.length ++ items.flatMap encode

/-- A source as its length and its bytes. -/
def encodeCode (code : Code) : List UInt8 := encodeCount code.size ++ code.toList

/-- Reads a source. -/
def readCode (bytes : List UInt8) : Option (Code × List UInt8) :=
  match readCount bytes with
  | none => none
  | some (length, rest) => (Bytes.split? length rest).map fun (code, rest) => (code.toArray, rest)

/-- Reads a constant. -/
def readWord (bytes : List UInt8) : Option (Word × List UInt8) :=
  (Bytes.split? 32 bytes).map fun (digits, rest) => (Word.ofLittleEndian digits, rest)

/-- The binary form of a program. -/
def encode (program : Program) : List UInt8 :=
  encodeList encodeCode program.sources.toList ++
    encodeList Word.littleEndian program.constants.toList

/-- Reads a program from the start of a byte string. -/
def read (bytes : List UInt8) : Option (Program × List UInt8) :=
  match readList readCode bytes with
  | none => none
  | some (sources, rest) =>
      (readList readWord rest).map fun (constants, rest) =>
        (⟨sources.toArray, constants.toArray⟩, rest)

/-- Reads a byte string that is the binary form of a program and nothing else. -/
def decode (bytes : List UInt8) : Except Failure Program :=
  match read bytes with
  | some (program, []) =>
      if program.sources.all Code.aligned then .ok program else .error .malformedEncoding
  | _ => .error .malformedEncoding

end Codec

end StackCert
