import StackCert.Host
import StackCert.Store

/-!
# The plain host

A host that works on a store, admits every instruction, and shows nothing.
-/

namespace StackCert

/-- A store with a journal and nothing else. -/
structure PlainHost (σ : Type) where
  store : σ
  journal : Journal := {}

namespace PlainHost

/-- The host that works on the store. -/
def host {σ : Type} [Store σ] : Host (PlainHost σ) where
  get state space key := (.ok (Store.get state.store ⟨space, key⟩), state)
  set state space key value :=
    match Store.set state.store ⟨space, key⟩ value with
    | (result, store) => (result, { state with store })
  permit state _ _ := (.ok (), state)
  observe state event := { state with journal := state.journal.note event }

end PlainHost

end StackCert
