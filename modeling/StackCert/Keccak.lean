import StackCert.Word

/-!
# Keccak-256

The sponge over the permutation of 25 lanes of 64 bits, with blocks of 136 bytes
and a digest of 32. Lane `(x, y)` of a state stands at index `x + 5 * y`.
-/

namespace StackCert

namespace Keccak

/-- The 25 lanes of the permutation. -/
abbrev State := Vector UInt64 25

/-- The lane in column `x` and row `y`, both taken modulo five. -/
def lane (state : State) (x y : Nat) : UInt64 := state[x % 5 + 5 * (y % 5)]

/-- Builds a state lane by lane from its column and row. -/
def build (f : Nat → Nat → UInt64) : State := Vector.ofFn fun index => f (index.val % 5) (index.val / 5)

/-- Rotates a lane towards its most significant bit by fewer than 64 places. -/
def rotate (word : UInt64) (places : UInt64) : UInt64 :=
  (word <<< places) ||| (word >>> (64 - places))

/-- How far each lane is rotated, by its index in the state. -/
def rotations : Vector UInt64 25 :=
  #v[0, 1, 62, 28, 27, 36, 44, 6, 55, 20, 3, 10, 43, 25, 39, 41, 45, 15, 21, 8, 18, 2, 61, 56, 14]

/-- The constant of each of the 24 rounds. -/
def roundConstants : List UInt64 :=
  [0x0000000000000001, 0x0000000000008082, 0x800000000000808a, 0x8000000080008000,
   0x000000000000808b, 0x0000000080000001, 0x8000000080008081, 0x8000000000008009,
   0x000000000000008a, 0x0000000000000088, 0x0000000080008009, 0x000000008000000a,
   0x000000008000808b, 0x800000000000008b, 0x8000000000008089, 0x8000000000008003,
   0x8000000000008002, 0x8000000000000080, 0x000000000000800a, 0x800000008000000a,
   0x8000000080008081, 0x8000000000008080, 0x0000000080000001, 0x8000000080008008]

/-- Mixes into every lane the parities of two neighbouring columns. -/
def diffuse (state : State) : State :=
  let parity (x : Nat) : UInt64 :=
    lane state x 0 ^^^ lane state x 1 ^^^ lane state x 2 ^^^ lane state x 3 ^^^ lane state x 4
  let parities : Vector UInt64 5 := Vector.ofFn fun x => parity x.val
  build fun x y =>
    lane state x y ^^^ parities[(x + 4) % 5] ^^^ rotate parities[(x + 1) % 5] 1

/-- Rotates every lane and moves it to its new place. -/
def disperse (state : State) : State :=
  let rotated : State := Vector.ofFn fun index => rotate state[index] rotations[index]
  build fun x y => lane rotated (x + 3 * y) x

/-- Combines every lane with the two to its right; the only step that is not linear. -/
def combine (state : State) : State :=
  build fun x y => lane state x y ^^^ (~~~(lane state (x + 1) y) &&& lane state (x + 2) y)

/-- One round of the permutation. -/
def round (state : State) (constant : UInt64) : State :=
  let mixed := combine (disperse (diffuse state))
  mixed.set 0 (mixed[0] ^^^ constant)

/-- The permutation: 24 rounds. -/
def permute (state : State) : State := roundConstants.foldl round state

/-- The number of bytes taken in before each permutation. -/
def blockSize : Nat := 136

/-- Adds a block to the state, eight bytes to a lane. -/
def addBlock (state : State) (block : List UInt8) : State :=
  Vector.ofFn fun index =>
    state[index] ^^^ UInt64.ofNat (Bytes.ofLittleEndian ((block.drop (8 * index.val)).take 8))

/-- Completes a message to whole blocks: a first bit, zeros, and a last bit. -/
def pad (message : List UInt8) : List UInt8 :=
  let missing := blockSize - message.length % blockSize
  if missing = 1 then message ++ [0x81]
  else message ++ 0x01 :: (List.replicate (missing - 2) 0 ++ [0x80])

/-- Takes in the blocks of a completed message in turn. -/
def absorb (state : State) (message : List UInt8) : State :=
  if message.length = 0 then state
  else absorb (permute (addBlock state (message.take blockSize))) (message.drop blockSize)
termination_by message.length
decreasing_by
  simp only [List.length_drop, blockSize]
  omega

/-- The 32 bytes of the digest of a message. -/
def digest (message : List UInt8) : List UInt8 :=
  let state := absorb (Vector.replicate 25 0) (pad message)
  ((state.toList.take 4).map fun lane => Bytes.littleEndian 8 lane.toNat).flatten

/-- The digest of a sequence of words, each written most significant byte first. -/
def digestWords (words : List Word) : Word :=
  Word.ofBigEndian (digest (words.map Word.bigEndian).flatten)

end Keccak

end StackCert
