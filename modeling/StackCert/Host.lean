import StackCert.Journal
import StackCert.Machine

/-!
# Hosts

A host resolves what a machine cannot: it reads and writes keys in the space of
the evaluation's owner, decides before each instruction whether it may run, and
shows parts of the machine on request. All it knows is a state of its own, which
every request may change, also one that fails.
-/

namespace StackCert

/-- What a machine needs from outside, over a state of type `σ`. -/
structure Host (σ : Type) where
  /-- Reads a key in a space. -/
  get : σ → Word → Word → Except Failure Word × σ
  /-- Writes a value at a key in a space. -/
  set : σ → Word → Word → Word → Except Failure Unit × σ
  /-- Decides whether an instruction may run over a stack. -/
  permit : σ → Instruction → Stack → Except Failure Unit × σ
  /-- Shows a part of a machine. -/
  debug : σ → DebugStyle → Machine → Except Failure Unit × σ := fun state _ _ => (.ok (), state)
  /-- Takes note of an event. -/
  observe : σ → Event → σ := fun state _ => state

end StackCert
