import Mathlib.Data.List.Sort
import StackCert.Store

/-!
# What a ledger holds

The entries of a ledger are in order, so a slot has one word at most and reading
a slot is finding its entry (`Ledger.get?_eq_some_iff`). Writing and erasing are
described by the entries that are left. From this follow the laws of reading what
was written, and that the listing of a space is determined by what can be read in
it (`Ledger.inSpace_eq_iff`): a write in one space changes no listing of another.
-/

namespace StackCert

theorem Slot.Before.ne {left right : Slot} (before : left.Before right) : left ≠ right := by
  rintro rfl
  exact not_before_self left before

namespace Ledger

variable {ledger left right : Ledger} {slot other : Slot} {word value : Word} {space : Word}

theorem nodup_slots (ledger : Ledger) : (ledger.entries.map Entry.slot).Nodup := by
  rw [List.Nodup, List.pairwise_map]
  apply ledger.ascending.imp
  intro first second before
  exact before.ne

theorem get?_eq_some_iff : ledger.get? slot = some word ↔ ⟨slot, word⟩ ∈ ledger.entries := by
  unfold get?
  constructor
  · intro held
    rcases Option.map_eq_some_iff.mp held with ⟨entry, found, rfl⟩
    have here : entry.slot = slot := by simpa using List.find?_some found
    rw [← here]
    exact List.mem_of_find?_eq_some found
  · intro member
    cases found : ledger.entries.find? fun entry => entry.slot = slot with
    | none => simpa using List.find?_eq_none.mp found _ member
    | some entry =>
        have here : entry.slot = slot := by simpa using List.find?_some found
        have only := List.inj_on_of_nodup_map ledger.nodup_slots
          (List.mem_of_find?_eq_some found) member here
        rw [only, Option.map_some]

theorem mem_place_iff {entry found : Entry} {entries : List Entry}
    (ascending : entries.Pairwise fun left right => left.slot.Before right.slot) :
    found ∈ place entry entries ↔ found = entry ∨ (found ∈ entries ∧ found.slot ≠ entry.slot) := by
  induction entries with
  | nil => simp [place]
  | cons first rest ih =>
      rcases List.pairwise_cons.mp ascending with ⟨beforeRest, restAscending⟩
      unfold place
      split
      · -- All entries come behind the new one.
        rename_i before
        have behind : ∀ later ∈ first :: rest, later.slot ≠ entry.slot := by
          intro later member
          rcases List.mem_cons.mp member with rfl | inRest
          · exact before.ne.symm
          · exact (before.trans (beforeRest later inRest)).ne.symm
        rw [List.mem_cons, and_iff_left_of_imp (behind found)]
      · split
        · -- The first entry is replaced, and the others come behind it.
          rename_i same
          have behind : ∀ later ∈ rest, later.slot ≠ entry.slot := by
            intro later inRest
            rw [same]
            exact (beforeRest later inRest).ne.symm
          rw [List.mem_cons, List.mem_cons]
          constructor
          · rintro (isNew | inRest)
            · exact Or.inl isNew
            · exact Or.inr ⟨Or.inr inRest, behind found inRest⟩
          · rintro (isNew | ⟨rfl | inRest, different⟩)
            · exact Or.inl isNew
            · exact absurd same.symm different
            · exact Or.inr inRest
        · rename_i different
          rw [List.mem_cons, List.mem_cons, ih restAscending]
          constructor
          · rintro (rfl | isNew | ⟨inRest, other⟩)
            · exact Or.inr ⟨Or.inl rfl, Ne.symm different⟩
            · exact Or.inl isNew
            · exact Or.inr ⟨Or.inr inRest, other⟩
          · rintro (isNew | ⟨rfl | inRest, other⟩)
            · exact Or.inr (Or.inl isNew)
            · exact Or.inl rfl
            · exact Or.inr (Or.inr ⟨inRest, other⟩)

theorem get?_insert : (ledger.insert slot value).get? other =
    if other = slot then some value else ledger.get? other := by
  ext word
  rw [get?_eq_some_iff, insert, mem_place_iff ledger.ascending]
  split
  · rename_i same
    subst same
    simp [eq_comm]
  · rename_i different
    rw [get?_eq_some_iff]
    simp [different]

theorem get?_erase : (ledger.erase slot).get? other =
    if other = slot then none else ledger.get? other := by
  ext word
  rw [get?_eq_some_iff, erase, List.mem_filter]
  split
  · rename_i same
    simp [same]
  · rename_i different
    rw [get?_eq_some_iff]
    simp [different]

theorem mem_inSpace_iff {key : Word} :
    (key, word) ∈ ledger.inSpace space ↔ ledger.get? ⟨space, key⟩ = some word := by
  rw [get?_eq_some_iff, inSpace, List.mem_map]
  constructor
  · rintro ⟨entry, member, listed⟩
    cases listed
    rcases List.mem_filter.mp member with ⟨held, inside⟩
    have here : entry.slot.space = space := by simpa using inside
    rw [← here]
    exact held
  · intro held
    exact ⟨_, List.mem_filter.mpr ⟨held, by simp⟩, rfl⟩

theorem ascending_inSpace (ledger : Ledger) (space : Word) :
    (ledger.inSpace space).Pairwise fun left right => left.1 < right.1 := by
  rw [inSpace, List.pairwise_map, List.pairwise_filter]
  apply ledger.ascending.imp
  intro first second before inside inside'
  simp only [decide_eq_true_eq] at inside inside'
  rcases before with spaceBefore | ⟨_, keyBefore⟩
  · rw [inside, inside'] at spaceBefore
    exact absurd spaceBefore (BitVec.lt_irrefl space)
  · exact keyBefore

/-- The listing of a space is determined by what can be read in it. -/
theorem inSpace_eq_iff : left.inSpace space = right.inSpace space ↔
    ∀ key, left.get? ⟨space, key⟩ = right.get? ⟨space, key⟩ := by
  constructor
  · intro sameListing key
    ext word
    rw [← mem_inSpace_iff, sameListing, mem_inSpace_iff]
  · intro sameWords
    have irreflexive : Std.Irrefl fun left right : Word × Word => left.1 < right.1 :=
      ⟨fun listed => BitVec.lt_irrefl listed.1⟩
    have antisymmetric : Std.Antisymm fun left right : Word × Word => left.1 < right.1 :=
      ⟨fun first second before behind =>
        absurd (BitVec.lt_trans before behind) (BitVec.lt_irrefl first.1)⟩
    apply (left.ascending_inSpace space).eq_of_mem_iff (right.ascending_inSpace space)
    rintro ⟨key, word⟩
    rw [mem_inSpace_iff, mem_inSpace_iff, sameWords key]

/-- Ledgers that list the same in every space are the same. -/
theorem eq_of_inSpace (sameListings : ∀ space, left.inSpace space = right.inSpace space) :
    left = right := by
  have irreflexive : Std.Irrefl fun first second : Entry => first.slot.Before second.slot :=
    ⟨fun entry before => before.ne rfl⟩
  have antisymmetric : Std.Antisymm fun first second : Entry => first.slot.Before second.slot :=
    ⟨fun first second before behind => absurd rfl (before.trans behind).ne⟩
  have sameEntries : left.entries = right.entries := by
    apply left.ascending.eq_of_mem_iff right.ascending
    rintro ⟨⟨space, key⟩, word⟩
    rw [← get?_eq_some_iff, ← get?_eq_some_iff, inSpace_eq_iff.mp (sameListings space) key]
  cases left
  cases right
  cases sameEntries
  rfl

end Ledger

namespace SparseStore

variable {store : SparseStore} {slot other : Slot} {value space : Word}

theorem get?_put : (store.put slot value).ledger.get? other =
    if other = slot then (if value = 0 then none else some value) else store.ledger.get? other := by
  unfold put
  split
  · rw [Ledger.get?_erase]
  · rw [Ledger.get?_insert]

theorem get_put : (store.put slot value).get other =
    if other = slot then value else store.get other := by
  rw [get, get?_put]
  split
  · split
    · rename_i isZero
      exact isZero.symm
    · rfl
  · rfl

/-- A write in another space does not change the listing of a space. -/
theorem inSpace_put_of_ne (elsewhere : slot.space ≠ space) :
    (store.put slot value).inSpace space = store.inSpace space := by
  apply Ledger.inSpace_eq_iff.mpr
  intro key
  rw [get?_put, if_neg]
  rintro rfl
  exact elsewhere rfl

/-- The listing of a space after a write in it depends on nothing but the listing before. -/
theorem inSpace_put_congr {left right : SparseStore}
    (same : left.inSpace space = right.inSpace space) (slot : Slot) (value : Word) :
    (left.put slot value).inSpace space = (right.put slot value).inSpace space := by
  apply Ledger.inSpace_eq_iff.mpr
  intro key
  rw [get?_put, get?_put, Ledger.inSpace_eq_iff.mp same key]

theorem eq_of_inSpace {left right : SparseStore}
    (sameListings : ∀ space, left.inSpace space = right.inSpace space) : left = right :=
  congrArg SparseStore.mk (Ledger.eq_of_inSpace sameListings)

end SparseStore

namespace AuditStore

variable {store : AuditStore} {slot other : Slot} {value : Word}

theorem put_of_writable (writable : store.readOnly = false) (slot : Slot) (value : Word) :
    store.put slot value = (.ok (), { store with
      ledger := store.ledger.insert slot value, writes := store.writes.push ⟨slot, value⟩ }) := by
  unfold put
  rw [writable]
  rfl

theorem get_put (writable : store.readOnly = false) :
    (store.put slot value).2.get other = if other = slot then value else store.get other := by
  rw [put_of_writable writable, get, Ledger.get?_insert]
  split <;> rfl

end AuditStore

end StackCert
