import StackCert.Expression

/-!
# Documents

Programs, contexts, bounds, layouts and settings can be written as documents:
values made of texts, numbers, lists and records. A structure is written as a
record of its fields. It is read from such a record, whatever other fields that
has, or from the list of its fields' values. Reading fills in a structure as it
stands: it looks at the range of each number and at nothing else.
-/

namespace StackCert

/-- A value of nested texts, numbers, lists and records. -/
inductive Document where
  | null
  | truth (value : Bool)
  | integer (value : Int)
  /-- A number written with a fraction or an exponent. -/
  | decimal (literal : String)
  | text (value : String)
  | list (items : List Document)
  | record (fields : List (String × Document))

namespace Document

/-- A natural number below a bound. -/
def natural? (bound : Nat) : Document → Option Nat
  | .integer value => if 0 ≤ value ∧ value < bound then some value.toNat else none
  | _ => none

/-- A text. -/
def text? : Document → Option String
  | .text value => some value
  | _ => none

/-- A list whose items can all be read. -/
def listOf? {α : Type} (read? : Document → Option α) : Document → Option (List α)
  | .list items => items.mapM read?
  | _ => none

/-- The value of a field; of several fields with one name the last counts. -/
def field? (fields : List (String × Document)) (name : String) : Option Document :=
  (fields.reverse.find? fun field => field.1 == name).map Prod.snd

/-- The values of the named fields of a structure, in the order of the names. -/
def fields? (names : List String) : Document → Option (List Document)
  | .record fields => names.mapM (field? fields)
  | .list items => if items.length = names.length then some items else none
  | _ => none

/-- Writes a list. -/
def ofList {α : Type} (write : α → Document) (items : List α) : Document := .list (items.map write)

/-- Writes a natural number. -/
def ofNat (number : Nat) : Document := .integer number

end Document

namespace Word

/-- The value of a hexadecimal digit of either case. -/
def digit? (character : Char) : Option Nat :=
  let code := character.toNat
  if 0x30 ≤ code ∧ code ≤ 0x39 then some (code - 0x30)
  else if 0x41 ≤ code ∧ code ≤ 0x46 then some (code - 0x41 + 10)
  else if 0x61 ≤ code ∧ code ≤ 0x66 then some (code - 0x61 + 10)
  else none

/-- Whether a character is passed over between digits. -/
def isBlank (character : Char) : Bool :=
  character = ' ' || character = '\t' || character = '\r' || character = '\n'

/-- The characters of a text behind the mark of hexadecimal numbers, which may be missing. -/
def unmarked : List Char → List Char
  | '0' :: 'x' :: rest => rest
  | characters => characters

/-- The word of pairs of digits; a last digit without a partner is left out. -/
def ofDigitPairs : List Nat → Nat → Word
  | high :: low :: digits, number => ofDigitPairs digits (256 * number + 16 * high + low)
  | _, number => BitVec.ofNat 256 number

/--
Reads a word in hexadecimal, of 1 to 64 characters behind the mark. An odd
number of characters is completed by a zero in front. Blanks are passed over but
count as characters, so they shift the pairs in which digits are taken.
-/
def ofText? (text : String) : Option Word :=
  let characters := unmarked text.toList
  if characters.isEmpty ∨ 64 < characters.length then none
  else
    match (characters.filter fun character => !isBlank character).mapM digit? with
    | none => none
    | some digits =>
        if characters.length % 2 = 1 then some (ofDigitPairs (0 :: digits) 0)
        else some (ofDigitPairs digits 0)

/-- Reads a word from a document. -/
def ofDocument? (document : Document) : Option Word := document.text?.bind ofText?

/-- Writes a word. -/
def toDocument (word : Word) : Document := .text word.hexadecimal

end Word

namespace Opcode

/-- Reads an opcode from a document. -/
def ofDocument? (document : Document) : Option Opcode :=
  (document.natural? 256).map fun byte => ⟨UInt8.ofNat byte⟩

/-- Writes an opcode. -/
def toDocument (opcode : Opcode) : Document := .ofNat opcode.byte.toNat

end Opcode

namespace FieldOrder

/-- The name of an order. -/
def name : FieldOrder → String
  | .lowestFirst => "LowestFirst"
  | .highestFirst => "HighestFirst"

/-- The order with the given name. -/
def ofName? (name : String) : Option FieldOrder :=
  [lowestFirst, highestFirst].find? fun order => order.name == name

/-- Reads an order: its name, or a record with its name as the only field and nothing in it. -/
def ofDocument? : Document → Option FieldOrder
  | .text name => ofName? name
  | .record [(name, .null)] => ofName? name
  | _ => none

/-- Writes an order. -/
def toDocument (order : FieldOrder) : Document := .text order.name

end FieldOrder

namespace Layout

/-- Reads a layout. Any width is taken. -/
def ofDocument? (document : Document) : Option Layout :=
  match document.fields? ["field_bits", "order"] with
  | some [bits, order] => do
      let fieldBits ← bits.natural? UInt64.size
      let order ← FieldOrder.ofDocument? order
      return ⟨fieldBits, order⟩
  | _ => none

/-- Writes a layout. -/
def toDocument (layout : Layout) : Document :=
  .record [("field_bits", .ofNat layout.fieldBits), ("order", layout.order.toDocument)]

end Layout

namespace Settings

/-- Reads settings. -/
def ofDocument? (document : Document) : Option Settings :=
  match document.fields? ["stack_limit", "step_limit", "report_layout"] with
  | some [stack, step, layout] => do
      let stackLimit ← stack.natural? UInt64.size
      let stepLimit ← step.natural? UInt64.size
      let layout ← Layout.ofDocument? layout
      return ⟨stackLimit, UInt64.ofNat stepLimit, layout⟩
  | _ => none

/-- Writes settings. -/
def toDocument (settings : Settings) : Document :=
  .record
    [("stack_limit", .ofNat settings.stackLimit),
     ("step_limit", .ofNat settings.stepLimit.toNat),
     ("report_layout", settings.layout.toDocument)]

end Settings

namespace Program

/-- Reads the bytes of a source. -/
def codeOfDocument? (document : Document) : Option Code :=
  (document.listOf? (Document.natural? 256)).map fun bytes => (bytes.map UInt8.ofNat).toArray

/-- Reads a program. -/
def ofDocument? (document : Document) : Option Program :=
  match document.fields? ["sources", "constants"] with
  | some [sources, constants] => do
      let sources ← sources.listOf? codeOfDocument?
      let constants ← constants.listOf? Word.ofDocument?
      return ⟨sources.toArray, constants.toArray⟩
  | _ => none

/-- Writes the bytes of a source. -/
def codeToDocument (code : Code) : Document :=
  .ofList (fun byte => .ofNat byte.toNat) code.toList

/-- Writes a program. -/
def toDocument (program : Program) : Document :=
  .record
    [("sources", .ofList codeToDocument program.sources.toList),
     ("constants", .ofList Word.toDocument program.constants.toList)]

end Program

namespace Context

/-- Reads a context. -/
def ofDocument? (document : Document) : Option Context :=
  match document.fields? ["columns"] with
  | some [columns] => do
      let columns ← columns.listOf? (Document.listOf? Word.ofDocument?)
      return ⟨columns⟩
  | _ => none

/-- Writes a context. -/
def toDocument (context : Context) : Document :=
  .record [("columns", .ofList (.ofList Word.toDocument) context.columns)]

end Context

namespace Bounds

/-- Reads bounds. -/
def ofDocument? (document : Document) : Option Bounds :=
  match document.fields? ["rows"] with
  | some [rows] => do
      let rows ← rows.listOf? (Document.natural? UInt64.size)
      return ⟨rows⟩
  | _ => none

/-- Writes bounds. -/
def toDocument (bounds : Bounds) : Document := .record [("rows", .ofList .ofNat bounds.rows)]

end Bounds

end StackCert
