import StackCert.Expression

/-!
# Replaying byte strings

Any byte string can be put to the test. It is split at the first delimiter into
the binary form of a program and the data of a context; if the first part is the
form of a program, its first source is deployed for up to three values and
evaluated. What certification promises is checked along the way, and a promise
that was not kept ends the replay.
-/

namespace StackCert

namespace Replay

/-- The bytes between a program and the data of its context. -/
def delimiter : List UInt8 := [0xde, 0xad, 0xbe, 0xef]

/-- The bytes before and behind the first delimiter; without one, all bytes and none. -/
def splitInput : List UInt8 → List UInt8 × List UInt8
  | [] => ([], [])
  | byte :: bytes =>
      if delimiter.isPrefixOf (byte :: bytes) then ([], (byte :: bytes).drop delimiter.length)
      else
        match splitInput bytes with
        | (code, data) => (byte :: code, data)

/-- Words written one after the other, most significant byte first; the last may be short. -/
def wordsOf (data : List UInt8) : List Word :=
  match data with
  | [] => []
  | byte :: bytes =>
      Word.ofBigEndian ((byte :: bytes).take 32) :: wordsOf ((byte :: bytes).drop 32)
termination_by data.length
decreasing_by
  simp only [List.length_drop, List.length_cons]
  omega

/-- The context with the same words in two columns. -/
def contextOf (data : List UInt8) : Context := ⟨[wordsOf data, wordsOf data]⟩

/-- The values of an evaluation, or its failure. -/
abbrev Result := Except Failure (List Word)

/-- A result as it is written. -/
def render : Result → String
  | .ok words => "Result: Ok(" ++ Executor.wordList words ++ ")"
  | .error failure => "Result: Err(" ++ failure.form ++ ")"

/-- A promise that was not kept. -/
inductive Violation where
  /-- A program has another binary form than the one it was read from. -/
  | encoding
  /-- An evaluation ended with another number of values than certified. -/
  | outputs (expected actual : Nat)
  /-- A certified program failed in a way that certification rules out. -/
  | failure (failure : Failure)
deriving DecidableEq, Repr

/-- The promise on a result that was not kept, if there is one. -/
def violation? (outputs : Nat) : Result → Option Violation
  | .ok words => if words.length = outputs then none else some (.outputs outputs words.length)
  | .error failure =>
      if failure.isFatal = false ∨ failure = .resourceExhausted then none
      else some (.failure failure)

/-- How many instructions a replayed evaluation may run. -/
def stepLimit : UInt64 := 10000

/-- Evaluates a program deployed for the given number of values, if it can be. -/
def trial? (program : Program) (context : Context) (outputs : Nat) : Option Result :=
  match Settings.standard.deploy program context.bounds [outputs] with
  | .error _ => none
  | .ok expression =>
      some (Settings.standard.evaluateWithLimit expression { context } stepLimit
        ({} : SparseStore)).1

/-- The results of the numbers of values tried in turn, up to the first violation. -/
def trials (program : Program) (context : Context) : List Nat → List Result × Option Violation
  | [] => ([], none)
  | outputs :: rest =>
      match trial? program context outputs with
      | none => trials program context rest
      | some result =>
          match violation? outputs result with
          | some violation => ([], some violation)
          | none =>
              match trials program context rest with
              | (results, violation?) => (result :: results, violation?)

/-- Replays a byte string: the results, and the promise that was not kept if there is one. -/
def replay (bytes : List UInt8) : List Result × Option Violation :=
  match splitInput bytes with
  | (code, data) =>
      match Codec.decode code with
      | .error _ => ([], none)
      | .ok program =>
          if Codec.encode program = code then trials program (contextOf data) [0, 1, 2, 3]
          else ([], some .encoding)

end Replay

end StackCert
