import StackCert.Host
import StackCert.Store

/-!
# The scripted host

A host that remembers everything it was asked and fails where its script says
so. It serves to observe how an evaluation treats its host.
-/

namespace StackCert

/-- What a scripted host refuses. -/
structure Script where
  /-- The failure of every read, if reads fail. -/
  getFailure? : Option Failure := none
  /-- The failure of every write, if writes fail. -/
  setFailure? : Option Failure := none
  /-- The failure of every request to show something, if those fail. -/
  debugFailure? : Option Failure := none
  /-- The request for admission that fails, counted from one, and its failure. -/
  permitFailure? : Option (Nat × Failure) := none
deriving DecidableEq, Repr

/-- Something a host was asked. -/
inductive Call where
  | get (space key : Word)
  | set (space key value : Word)
  | permit (instruction : Instruction) (height : Nat)
  | debug (style : DebugStyle) (frame? : Option Frame) (height : Nat)
deriving DecidableEq, Repr

/-- A store, a script, and what was asked so far. -/
structure ScriptedHost (σ : Type) where
  store : σ
  script : Script := {}
  /-- What was asked, in order. -/
  calls : Array Call := #[]
  /-- How many requests for admission there were. -/
  admissions : Nat := 0
  journal : Journal := {}

namespace ScriptedHost

variable {σ : Type}

/-- The host with another call remembered. -/
def remember (state : ScriptedHost σ) (call : Call) : ScriptedHost σ :=
  { state with calls := state.calls.push call }

/-- Reads from the store unless the script has reads fail. -/
def get [Store σ] (state : ScriptedHost σ) (space key : Word) :
    Except Failure Word × ScriptedHost σ :=
  let state := state.remember (.get space key)
  match state.script.getFailure? with
  | some failure => (.error failure, state)
  | none => (.ok (Store.get state.store ⟨space, key⟩), state)

/-- Writes to the store unless the script has writes fail. -/
def set [Store σ] (state : ScriptedHost σ) (space key value : Word) :
    Except Failure Unit × ScriptedHost σ :=
  let state := state.remember (.set space key value)
  match state.script.setFailure? with
  | some failure => (.error failure, state)
  | none =>
      match Store.set state.store ⟨space, key⟩ value with
      | (result, store) => (result, { state with store })

/-- Admits every instruction but the one that the script names. -/
def permit (state : ScriptedHost σ) (instruction : Instruction) (stack : Stack) :
    Except Failure Unit × ScriptedHost σ :=
  let state := state.remember (.permit instruction stack.size)
  let state := { state with admissions := state.admissions + 1 }
  match state.script.permitFailure? with
  | some (refused, failure) =>
      (if state.admissions = refused then .error failure else .ok (), state)
  | none => (.ok (), state)

/-- Shows nothing, and fails if the script says so. -/
def debug (state : ScriptedHost σ) (style : DebugStyle) (machine : Machine) :
    Except Failure Unit × ScriptedHost σ :=
  let state := state.remember (.debug style machine.frame? machine.stack.size)
  match state.script.debugFailure? with
  | some failure => (.error failure, state)
  | none => (.ok (), state)

/-- The host that follows its script. -/
def host [Store σ] : Host (ScriptedHost σ) where
  get := get
  set := set
  permit := permit
  debug := debug
  observe state event := { state with journal := state.journal.note event }

end ScriptedHost

end StackCert
