import StackCert.Context
import StackCert.Program
import StackCert.Stack

/-!
# Journals

What an observer sees of evaluations: events, one for every instruction, store
access and deployment, and log lines. A journal keeps as much of it as its owner
asked for and nothing else, so an evaluation that nobody watches keeps nothing.
-/

namespace StackCert

/-- Something that happened during an evaluation or a deployment. -/
inductive Event where
  /-- An instruction is about to run over the given stack. -/
  | step (space : Word) (instruction : Instruction) (stack : Stack)
  /-- A key was read. -/
  | get (space key value : Word)
  /-- A key was written. -/
  | set (space key value : Word)
  /-- A program was certified. -/
  | deploy (program : Program) (bounds : Bounds) (outputs heights : List Nat)
deriving DecidableEq, Repr

/-- The importance of a log line. -/
inductive Level where
  | debug
  /-- Every single instruction. -/
  | trace
deriving DecidableEq, Repr

namespace Level

/-- The name a log line starts with. -/
def name : Level → String
  | .debug => "DEBUG"
  | .trace => "TRACE"

/-- Whether an observer who asked for one level sees lines of another. -/
def shows : Level → Level → Bool
  | .debug, .trace => false
  | _, _ => true

end Level

/-- A line of a log. -/
structure LogLine where
  level : Level
  text : String
deriving DecidableEq, Repr

namespace LogLine

/-- A line as it is written. -/
def render (line : LogLine) : String := line.level.name ++ " " ++ line.text

end LogLine

/-- The events and log lines that an observer asked for. -/
structure Journal where
  /-- The least important level to keep, if any is to be kept. -/
  level? : Option Level := none
  /-- Whether events are to be kept. -/
  listening : Bool := false
  /-- The lines kept, in order. -/
  lines : Array LogLine := #[]
  /-- The events kept, in order. -/
  events : Array Event := #[]
deriving DecidableEq, Repr

namespace Journal

/-- Keeps a log line if its level was asked for; its text is made up only then. -/
def log (journal : Journal) (level : Level) (text : Unit → String) : Journal :=
  match journal.level? with
  | none => journal
  | some least =>
      if least.shows level then { journal with lines := journal.lines.push ⟨level, text ()⟩ }
      else journal

/-- Keeps an event if events were asked for. -/
def note (journal : Journal) (event : Event) : Journal :=
  if journal.listening then { journal with events := journal.events.push event } else journal

end Journal

end StackCert
