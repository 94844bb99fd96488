import StackCert.Text.Visible

/-!
# Quoted text

A text is quoted by two double quotes. Inside, a double quote and a backslash
are marked by a backslash, four control characters have short names, and every
other character that does not show by itself is written by its number.
-/

namespace StackCert

namespace Text

/-- A character by its number in hexadecimal. -/
def numbered (character : Char) : List Char :=
  ['\\', 'u', '\x7b'] ++ Nat.toDigits 16 character.toNat ++ ['\x7d']

/-- How a character is written inside quotes. -/
def escaped (character : Char) : List Char :=
  match character with
  | '\x00' => ['\\', '0']
  | '\t' => ['\\', 't']
  | '\r' => ['\\', 'r']
  | '\n' => ['\\', 'n']
  | '"' => ['\\', '"']
  | '\\' => ['\\', '\\']
  | other => if showsItself other then [other] else numbered other

/-- A text between double quotes. -/
def quoted (text : String) : String :=
  String.ofList ('"' :: text.toList.flatMap escaped ++ ['"'])

end Text

end StackCert
