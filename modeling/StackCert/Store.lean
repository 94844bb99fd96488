import StackCert.Failure
import StackCert.Ledger

/-!
# Stores

A store keeps the words that evaluations write, beyond the end of each. Two
stores are given: a sparse one, which holds no zeros since a slot without a word
reads as zero anyway, and one that remembers every write and can refuse them all.
-/

namespace StackCert

/-- Words that evaluations read and write. -/
class Store (σ : Type) where
  /-- The word at a slot, zero if none was ever written. -/
  get : σ → Slot → Word
  /-- Writes a word at a slot. -/
  set : σ → Slot → Word → Except Failure Unit × σ

/-- A store that drops zeros when they are written. -/
structure SparseStore where
  ledger : Ledger := .empty
deriving DecidableEq, Repr

namespace SparseStore

/-- The word at a slot. -/
def get (store : SparseStore) (slot : Slot) : Word := (store.ledger.get? slot).getD 0

/-- The store after a word is written at a slot. -/
def put (store : SparseStore) (slot : Slot) (value : Word) : SparseStore :=
  ⟨if value = 0 then store.ledger.erase slot else store.ledger.insert slot value⟩

/-- The keys written in a space with their words, in ascending order. -/
def inSpace (store : SparseStore) (space : Word) : List (Word × Word) :=
  store.ledger.inSpace space

instance : Store SparseStore where
  get := get
  set store slot value := (.ok (), store.put slot value)

end SparseStore

/-- A store that lists every write and keeps zeros. -/
structure AuditStore where
  ledger : Ledger := .empty
  /-- The writes so far, in order. -/
  writes : Array Entry := #[]
  /-- Whether every write is refused. -/
  readOnly : Bool := false
deriving DecidableEq, Repr

namespace AuditStore

/-- The word at a slot. -/
def get (store : AuditStore) (slot : Slot) : Word := (store.ledger.get? slot).getD 0

/-- The reason given for a refused write. -/
def refusal : Failure := .other "read-only store"

/-- Writes a word at a slot and lists the write. -/
def put (store : AuditStore) (slot : Slot) (value : Word) : Except Failure Unit × AuditStore :=
  if store.readOnly then (.error refusal, store)
  else
    (.ok (), { store with
      ledger := store.ledger.insert slot value, writes := store.writes.push ⟨slot, value⟩ })

instance : Store AuditStore where
  get := get
  set := put

end AuditStore

end StackCert
