import StackCert.Word

/-!
# Ledgers

A ledger holds words at slots, a slot being a key in a space. Its entries are
listed in strictly ascending order of their slots, by space and then by key, so
that every slot has at most one entry and two ledgers with the same entries are
equal.
-/

namespace StackCert

/-- A key in a space. -/
structure Slot where
  space : Word
  key : Word
deriving DecidableEq, Repr

namespace Slot

/-- The order of slots: by space and then by key. -/
def Before (left right : Slot) : Prop :=
  left.space < right.space ∨ (left.space = right.space ∧ left.key < right.key)

instance (left right : Slot) : Decidable (left.Before right) := by
  unfold Before
  infer_instance

theorem Before.trans {first second third : Slot} (left : first.Before second)
    (right : second.Before third) : first.Before third := by
  rcases left with left | ⟨leftSpace, leftKey⟩ <;> rcases right with right | ⟨rightSpace, rightKey⟩
  · exact Or.inl (BitVec.lt_trans left right)
  · exact Or.inl (rightSpace ▸ left)
  · exact Or.inl (leftSpace ▸ right)
  · exact Or.inr ⟨leftSpace.trans rightSpace, BitVec.lt_trans leftKey rightKey⟩

theorem not_before_self (slot : Slot) : ¬slot.Before slot := by
  simp [Before, BitVec.lt_irrefl]

/-- Of two different slots one comes before the other. -/
theorem before_of_not_before {left right : Slot} (notBefore : ¬left.Before right)
    (different : left ≠ right) : right.Before left := by
  obtain ⟨leftSpace, leftKey⟩ := left
  obtain ⟨rightSpace, rightKey⟩ := right
  simp only [Before, not_or, not_and, ne_eq, mk.injEq, BitVec.lt_def,
    BitVec.toNat_inj.symm] at notBefore different ⊢
  omega

end Slot

/-- A slot and the word held there. -/
structure Entry where
  slot : Slot
  value : Word
deriving DecidableEq, Repr

/-- Entries in strictly ascending order of their slots. -/
structure Ledger where
  entries : List Entry
  ascending : entries.Pairwise fun left right => left.slot.Before right.slot
deriving DecidableEq, Repr

namespace Ledger

/-- The ledger without entries. -/
def empty : Ledger := ⟨[], .nil⟩

/-- The word held at a slot. -/
def get? (ledger : Ledger) (slot : Slot) : Option Word :=
  (ledger.entries.find? fun entry => entry.slot = slot).map Entry.value

/-- Puts an entry at its place among ascending ones, in place of one with the same slot. -/
def place (entry : Entry) : List Entry → List Entry
  | [] => [entry]
  | first :: rest =>
      if entry.slot.Before first.slot then entry :: first :: rest
      else if entry.slot = first.slot then entry :: rest
      else first :: place entry rest

theorem mem_place {entry found : Entry} {entries : List Entry}
    (member : found ∈ place entry entries) : found = entry ∨ found ∈ entries := by
  induction entries with
  | nil => simpa [place] using member
  | cons first rest ih =>
      unfold place at member
      split at member
      · simpa using member
      · split at member
        · rcases List.mem_cons.mp member with same | inRest
          · exact Or.inl same
          · exact Or.inr (List.mem_cons_of_mem _ inRest)
        · rcases List.mem_cons.mp member with same | inPlaced
          · exact Or.inr (by simp [same])
          · rcases ih inPlaced with same | inRest
            · exact Or.inl same
            · exact Or.inr (List.mem_cons_of_mem _ inRest)

theorem pairwise_place {entry : Entry} {entries : List Entry}
    (ascending : entries.Pairwise fun left right => left.slot.Before right.slot) :
    (place entry entries).Pairwise fun left right => left.slot.Before right.slot := by
  induction entries with
  | nil => simp [place]
  | cons first rest ih =>
      obtain ⟨beforeRest, restAscending⟩ := List.pairwise_cons.mp ascending
      unfold place
      split
      · rename_i before
        refine List.pairwise_cons.mpr ⟨fun other member => ?_, ascending⟩
        rcases List.mem_cons.mp member with rfl | inRest
        · exact before
        · exact before.trans (beforeRest other inRest)
      · rename_i notBefore
        split
        · rename_i same
          exact List.pairwise_cons.mpr
            ⟨fun other member => same ▸ beforeRest other member, restAscending⟩
        · rename_i different
          refine List.pairwise_cons.mpr ⟨fun other member => ?_, ih restAscending⟩
          rcases mem_place member with rfl | inRest
          · exact Slot.before_of_not_before notBefore different
          · exact beforeRest other inRest

/-- The ledger with a word at a slot, in place of the one held there before. -/
def insert (ledger : Ledger) (slot : Slot) (value : Word) : Ledger :=
  ⟨place ⟨slot, value⟩ ledger.entries, pairwise_place ledger.ascending⟩

/-- The ledger without an entry at a slot. -/
def erase (ledger : Ledger) (slot : Slot) : Ledger :=
  ⟨ledger.entries.filter fun entry => entry.slot ≠ slot, ledger.ascending.filter _⟩

/-- The ledger of entries given in any order; of several for one slot the last one stays. -/
def ofList (entries : List Entry) : Ledger :=
  entries.foldl (fun ledger entry => ledger.insert entry.slot entry.value) empty

/-- The keys held in a space with their words, in ascending order. -/
def inSpace (ledger : Ledger) (space : Word) : List (Word × Word) :=
  (ledger.entries.filter fun entry => entry.slot.space = space).map fun entry =>
    (entry.slot.key, entry.value)

end Ledger

end StackCert
