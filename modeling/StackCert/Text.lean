/-!
# Text forms shared by messages and log lines
-/

namespace StackCert

namespace Text

/-- A byte as exactly two lower-case hexadecimal digits. -/
def hexByte (byte : UInt8) : String :=
  String.ofList [Nat.digitChar (byte.toNat / 16), Nat.digitChar (byte.toNat % 16)]

/-- Items between brackets, with a comma and a blank after all but the last. -/
def bracketed (items : List String) : String := "[" ++ ", ".intercalate items ++ "]"

end Text

end StackCert
