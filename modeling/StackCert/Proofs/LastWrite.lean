import StackCert.Proofs.Contents

/-!
# A sparse store is what it reads

A store that holds no zeros is known from the words that can be read in it: a slot has
an entry exactly if it does not read as zero (`SparseStore.eq_of_get`). Writing keeps
zeros out, and after any writes a slot reads as the last of them has left it. So the
writes matter only by the last one at each slot, and neither their order at different
slots nor what was overwritten leaves a trace in the store.
-/

namespace StackCert

theorem Slot.space_eq_iff {slot : Slot} {space : Word} :
    slot.space = space ↔
      ¬slot.Before ⟨space, 0⟩ ∧ ¬Slot.Before ⟨space, .largest⟩ slot := by
  have inWord := slot.key.isLt
  have zero : (0 : Word).toNat = 0 := rfl
  have largest : Word.largest.toNat = 2 ^ 256 - 1 := BitVec.toNat_allOnes
  simp only [Before, BitVec.lt_def, ← BitVec.toNat_inj, zero, largest]
  omega

/-- The word that the last of several writes has put at a slot, if there was one. -/
def lastWrite? (writes : List Entry) (slot : Slot) : Option Word :=
  (writes.reverse.find? fun write => write.slot = slot).map Entry.value

theorem lastWrite?_cons (write : Entry) (writes : List Entry) (slot : Slot) :
    lastWrite? (write :: writes) slot =
      (lastWrite? writes slot).or (if write.slot = slot then some write.value else none) := by
  simp only [lastWrite?, List.reverse_cons, List.find?_append]
  cases writes.reverse.find? fun write => write.slot = slot with
  | some later => rfl
  | none =>
      by_cases here : write.slot = slot
      · simp [here]
      · simp [here]

namespace Ledger

/-- The entries from one slot up to another, both included. -/
def between (ledger : Ledger) (first last : Slot) : List Entry :=
  ledger.entries.filter fun entry => ¬entry.slot.Before first ∧ ¬last.Before entry.slot

theorem inSpace_eq_between (ledger : Ledger) (space : Word) :
    ledger.inSpace space = (ledger.between ⟨space, 0⟩ ⟨space, .largest⟩).map fun entry =>
      (entry.slot.key, entry.value) := by
  rw [inSpace, between]
  congr 1
  apply List.filter_congr
  intro entry _
  exact decide_eq_decide.mpr Slot.space_eq_iff

end Ledger

namespace SparseStore

/-- No slot holds a zero. -/
def Zeroless (store : SparseStore) : Prop := ∀ entry ∈ store.ledger.entries, entry.value ≠ 0

/-- The store after several writes, one after another. -/
def putAll (store : SparseStore) (writes : List Entry) : SparseStore :=
  writes.foldl (fun store write => store.put write.slot write.value) store

variable {store left right : SparseStore} {slot : Slot} {space key value : Word}

theorem zeroless_iff : store.Zeroless ↔ ∀ slot, store.ledger.get? slot ≠ some 0 := by
  constructor
  · intro zeroless slot held
    exact zeroless _ (Ledger.get?_eq_some_iff.mp held) rfl
  · rintro noZero ⟨slot, value⟩ member rfl
    exact noZero slot (Ledger.get?_eq_some_iff.mpr member)

theorem Zeroless.put (zeroless : store.Zeroless) (slot : Slot) (value : Word) :
    (store.put slot value).Zeroless := by
  rw [zeroless_iff] at zeroless ⊢
  intro other
  rw [get?_put]
  split_ifs with here isZero
  · simp
  · simpa using isZero
  · exact zeroless other

theorem Zeroless.putAll (zeroless : store.Zeroless) (writes : List Entry) :
    (store.putAll writes).Zeroless := by
  induction writes generalizing store with
  | nil => exact zeroless
  | cons write writes ih => exact ih (zeroless.put write.slot write.value)

/-- A slot has an entry exactly if it does not read as zero. -/
theorem Zeroless.get?_eq_some_iff (zeroless : store.Zeroless) :
    store.ledger.get? slot = some value ↔ value ≠ 0 ∧ store.get slot = value := by
  have noZero := zeroless_iff.mp zeroless slot
  rw [get]
  cases held : store.ledger.get? slot with
  | none =>
      simp only [reduceCtorEq, Option.getD_none, false_iff, not_and]
      exact fun nonzero isZero => nonzero isZero.symm
  | some word =>
      rw [held] at noZero
      simp only [Option.some.injEq, Option.getD_some, iff_and_self]
      rintro rfl rfl
      exact noZero rfl

/-- Stores without zeros in which the same can be read are the same. -/
theorem eq_of_get (leftZeroless : left.Zeroless) (rightZeroless : right.Zeroless)
    (same : ∀ slot, left.get slot = right.get slot) : left = right := by
  apply eq_of_inSpace
  intro space
  apply Ledger.inSpace_eq_iff.mpr
  intro key
  ext word
  rw [leftZeroless.get?_eq_some_iff, rightZeroless.get?_eq_some_iff, same]

theorem get_putAll (store : SparseStore) (writes : List Entry) (slot : Slot) :
    (store.putAll writes).get slot = (lastWrite? writes slot).getD (store.get slot) := by
  induction writes generalizing store with
  | nil => rfl
  | cons write writes ih =>
      refine (ih _).trans ?_
      rw [get_put, lastWrite?_cons]
      cases lastWrite? writes slot with
      | some later => rfl
      | none =>
          by_cases here : slot = write.slot
          · simp [here]
          · simp [here, Ne.symm here]

theorem putAll_append (store : SparseStore) (writes later : List Entry) :
    store.putAll (writes ++ later) = (store.putAll writes).putAll later :=
  List.foldl_append

theorem Zeroless.putAll_congr (zeroless : store.Zeroless) {writes writes' : List Entry}
    (same : ∀ slot, lastWrite? writes slot = lastWrite? writes' slot) :
    store.putAll writes = store.putAll writes' := by
  apply eq_of_get (zeroless.putAll writes) (zeroless.putAll writes')
  intro slot
  rw [get_putAll, get_putAll, same]

theorem Zeroless.put_comm (zeroless : store.Zeroless) {first second : Entry}
    (apart : first.slot ≠ second.slot) :
    store.putAll [first, second] = store.putAll [second, first] := by
  apply zeroless.putAll_congr
  intro slot
  simp only [lastWrite?_cons]
  by_cases here : first.slot = slot
  · simp [here, show second.slot ≠ slot from fun there => apart (here.trans there.symm)]
  · simp [here]

/--
A sparse store is a canonical map of the words that can be read in it. After any writes
to a store without zeros a slot reads as the last write there has left it, or else as
before, and there are still no zeros. The listing of a space, which is the range of its
slots, has exactly the keys that do not read as zero, in strictly ascending order with
their words. The store is the only one without zeros that reads so. Therefore writes
that agree in the last one at each slot lead to the same store, and writes at different
slots can change places.
-/
theorem sparse_store_is_canonical_map {initial : SparseStore} (zeroless : initial.Zeroless)
    (writes : List Entry) :
    let reached := initial.putAll writes
    (∀ slot, reached.get slot =
      (lastWrite? writes slot).getD ((initial.ledger.get? slot).getD 0)) ∧
    reached.Zeroless ∧
    (∀ space, (reached.inSpace space).Pairwise (fun left right => left.1 < right.1) ∧
      (∀ key value, (key, value) ∈ reached.inSpace space ↔
        value ≠ 0 ∧ reached.get ⟨space, key⟩ = value) ∧
      reached.inSpace space = (reached.ledger.between ⟨space, 0⟩ ⟨space, .largest⟩).map
        fun entry => (entry.slot.key, entry.value)) ∧
    (∀ other : SparseStore, other.Zeroless →
      (reached = other ↔ ∀ slot, reached.get slot = other.get slot)) ∧
    (∀ writes', (∀ slot, lastWrite? writes slot = lastWrite? writes' slot) →
      reached = initial.putAll writes') ∧
    ∀ (first second : Entry) (later : List Entry), first.slot ≠ second.slot →
      initial.putAll (writes ++ first :: second :: later) =
        initial.putAll (writes ++ second :: first :: later) := by
  intro reached
  have stillZeroless : reached.Zeroless := zeroless.putAll writes
  refine ⟨initial.get_putAll writes, stillZeroless, ?_, ?_, ?_, ?_⟩
  · intro space
    refine ⟨reached.ledger.ascending_inSpace space, ?_, reached.ledger.inSpace_eq_between space⟩
    intro key value
    exact Ledger.mem_inSpace_iff.trans stillZeroless.get?_eq_some_iff
  · intro other otherZeroless
    constructor
    · rintro rfl slot
      rfl
    · exact eq_of_get stillZeroless otherZeroless
  · intro writes' same
    exact zeroless.putAll_congr same
  · intro first second later apart
    rw [putAll_append, putAll_append]
    exact congrArg (putAll · later) (stillZeroless.put_comm apart)

/-- An entry is cleared and another written twice; the highest key belongs to its space. -/
theorem sparse_store_is_canonical_map_cleared :
    let initial : SparseStore := ⟨.ofList [⟨⟨3, 7⟩, 5⟩]⟩
    let writes : List Entry :=
      [⟨⟨3, 1⟩, 4⟩, ⟨⟨3, 7⟩, 0⟩, ⟨⟨3, .largest⟩, 9⟩, ⟨⟨4, 0⟩, 6⟩, ⟨⟨3, 1⟩, 8⟩]
    let reached := initial.putAll writes
    let other : SparseStore := ⟨.ofList [⟨⟨4, 0⟩, 6⟩, ⟨⟨3, .largest⟩, 9⟩, ⟨⟨3, 1⟩, 8⟩]⟩
    initial.Zeroless ∧ reached.get ⟨3, 7⟩ = 0 ∧ reached.Zeroless ∧
      (7, 0) ∉ reached.inSpace 3 ∧ (.largest, 9) ∈ reached.inSpace 3 ∧
      other.Zeroless ∧ (∀ slot, reached.get slot = other.get slot) ∧
      reached = initial.putAll writes.tail ∧
      initial.putAll (writes ++ [⟨⟨3, 7⟩, 2⟩, ⟨⟨4, 7⟩, 2⟩]) =
        initial.putAll (writes ++ [⟨⟨4, 7⟩, 2⟩, ⟨⟨3, 7⟩, 2⟩]) := by
  intro initial writes reached other
  have zeroless : initial.Zeroless := show ∀ entry ∈ _, _ by decide
  have otherZeroless : other.Zeroless := show ∀ entry ∈ _, _ by decide
  rcases sparse_store_is_canonical_map zeroless writes with
    ⟨reads, stillZeroless, listed, canonical, lastOnly, commute⟩
  refine ⟨zeroless, reads ⟨3, 7⟩, stillZeroless, ?_, ?_, otherZeroless, ?_, ?_, ?_⟩
  · rw [(listed 3).2.1]
    exact fun held => held.1 rfl
  · rw [(listed 3).2.1]
    exact ⟨by decide, reads ⟨3, .largest⟩⟩
  · exact (canonical other otherZeroless).mp (by decide)
  · apply lastOnly
    intro slot
    refine (lastWrite?_cons _ _ slot).trans ?_
    by_cases here : ⟨3, 1⟩ = slot
    · subst here
      rfl
    · rw [if_neg here, Option.or_none]
      rfl
  · exact commute ⟨⟨3, 7⟩, 2⟩ ⟨⟨4, 7⟩, 2⟩ [] (by decide)

end SparseStore

end StackCert
