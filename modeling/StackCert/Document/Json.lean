import StackCert.Document

/-!
# Documents as JSON text

Documents are read from JSON text and written to it. A number without a fraction
and without an exponent is an integer, except a negative zero, which only a
number with a fraction can be.
-/

namespace StackCert

namespace Document

/-- The characters behind leading blanks. -/
def skipBlanks (characters : List Char) : List Char := characters.dropWhile Word.isBlank

/-- The number written by hexadecimal digits. -/
def ofHexDigits? (characters : List Char) : Option Nat :=
  characters.foldlM (fun number character => (Word.digit? character).map (16 * number + ·)) 0

/-- The character that a letter behind a backslash stands for. -/
def unescaped : Char → Char
  | 'n' => '\n'
  | 't' => '\t'
  | 'r' => '\r'
  | 'b' => '\x08'
  | 'f' => '\x0c'
  | other => other

/-- The character of two units that only together stand for one. -/
def ofSurrogates? (high low : Nat) : Option Char :=
  if 0xd800 ≤ high ∧ high < 0xdc00 ∧ 0xdc00 ≤ low ∧ low < 0xe000 then
    some (Char.ofNat (0x10000 + (high - 0xd800) * 0x400 + (low - 0xdc00)))
  else none

/-- The characters of code units, where two units may stand for one character. -/
def joinUnits : List Nat → List Char
  | [] => []
  | [unit] => [Char.ofNat unit]
  | high :: low :: units =>
      match ofSurrogates? high low with
      | some character => character :: joinUnits units
      | none => Char.ofNat high :: joinUnits (low :: units)

/-- Reads a text up to its closing quote; the code units so far are given last first. -/
def readText (reversed : List Nat) : List Char → Option (String × List Char)
  | '"' :: rest => some (String.ofList (joinUnits reversed.reverse), rest)
  | '\\' :: 'u' :: a :: b :: c :: d :: rest =>
      match ofHexDigits? [a, b, c, d] with
      | some unit => readText (unit :: reversed) rest
      | none => none
  | '\\' :: character :: rest => readText ((unescaped character).toNat :: reversed) rest
  | character :: rest => readText (character.toNat :: reversed) rest
  | [] => none

/-- Whether a character can stand in a number. -/
def inNumber (character : Char) : Bool :=
  character.isDigit || character = '-' || character = '+' || character = '.' ||
    character = 'e' || character = 'E'

/-- The number written by a literal. -/
def ofLiteral? (literal : List Char) : Option Document :=
  if literal.any fun character => character = '.' || character = 'e' || character = 'E' then
    some (.decimal (String.ofList literal))
  else
    match literal with
    | '-' :: digits =>
        (String.ofList digits).toNat?.map fun number =>
          if number = 0 then .decimal (String.ofList literal) else .integer (-number)
    | digits => (String.ofList digits).toNat?.map fun number => .integer number

/-- Reads a number, or one of the three words. -/
def readAtom : List Char → Option (Document × List Char)
  | 'n' :: 'u' :: 'l' :: 'l' :: rest => some (.null, rest)
  | 't' :: 'r' :: 'u' :: 'e' :: rest => some (.truth true, rest)
  | 'f' :: 'a' :: 'l' :: 's' :: 'e' :: rest => some (.truth false, rest)
  | characters =>
      (ofLiteral? (characters.takeWhile inNumber)).map fun number =>
        (number, characters.dropWhile inNumber)

mutual

/-- Reads a value. Every second call takes a character, which bounds the calls. -/
def readValue : Nat → List Char → Option (Document × List Char)
  | 0, _ => none
  | bound + 1, characters =>
      match skipBlanks characters with
      | '"' :: rest => (readText [] rest).map fun (content, rest) => (.text content, rest)
      | '[' :: rest =>
          match skipBlanks rest with
          | ']' :: rest => some (.list [], rest)
          | rest => (readItems bound rest).map fun (items, rest) => (.list items, rest)
      | '\x7b' :: rest =>
          match skipBlanks rest with
          | '\x7d' :: rest => some (.record [], rest)
          | rest => (readFields bound rest).map fun (fields, rest) => (.record fields, rest)
      | characters => readAtom characters

/-- Reads the items of a list up to its closing bracket. -/
def readItems : Nat → List Char → Option (List Document × List Char)
  | 0, _ => none
  | bound + 1, characters => do
      let (item, rest) ← readValue bound characters
      match skipBlanks rest with
      | ',' :: rest =>
          let (items, rest) ← readItems bound rest
          return (item :: items, rest)
      | ']' :: rest => return ([item], rest)
      | _ => none

/-- Reads the fields of a record up to its closing brace. -/
def readFields : Nat → List Char → Option (List (String × Document) × List Char)
  | 0, _ => none
  | bound + 1, characters =>
      match skipBlanks characters with
      | '"' :: rest => do
          let (name, rest) ← readText [] rest
          match skipBlanks rest with
          | ':' :: rest =>
              let (value, rest) ← readValue bound rest
              match skipBlanks rest with
              | ',' :: rest =>
                  let (fields, rest) ← readFields bound rest
                  return ((name, value) :: fields, rest)
              | '\x7d' :: rest => return ([(name, value)], rest)
              | _ => none
          | _ => none
      | _ => none

end

/-- The document written by a text, which holds nothing else. -/
def parse? (text : String) : Option Document :=
  match readValue (2 * text.length + 2) text.toList with
  | some (document, rest) => if (skipBlanks rest).isEmpty then some document else none
  | none => none

/-- How a character is written inside a text. -/
def escape (character : Char) : List Char :=
  if character = '"' then ['\\', '"']
  else if character = '\\' then ['\\', '\\']
  else if character.toNat < 0x20 then
    ['\\', 'u', '0', '0', Nat.digitChar (character.toNat / 16),
      Nat.digitChar (character.toNat % 16)]
  else [character]

/-- A text between quotes. -/
def renderText (text : String) : String :=
  String.ofList ('"' :: text.toList.flatMap escape ++ ['"'])

mutual

/-- Writes a document without blanks. -/
def render : Document → String
  | .null => "null"
  | .truth true => "true"
  | .truth false => "false"
  | .integer value => toString value
  | .decimal literal => literal
  | .text value => renderText value
  | .list items => "[" ++ ",".intercalate (renderItems items) ++ "]"
  | .record fields => "\x7b" ++ ",".intercalate (renderFields fields) ++ "\x7d"

/-- Writes each item of a list. -/
def renderItems : List Document → List String
  | [] => []
  | item :: items => item.render :: renderItems items

/-- Writes each field of a record. -/
def renderFields : List (String × Document) → List String
  | [] => []
  | (name, value) :: fields => (renderText name ++ ":" ++ value.render) :: renderFields fields

end

end Document

end StackCert
