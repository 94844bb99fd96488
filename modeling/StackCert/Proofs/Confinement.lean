import StackCert.Proofs.Abreast
import StackCert.Proofs.Contents

/-!
# Evaluations are confined to their space

An evaluation reads and writes keys in the space of its owner only. Two stores
that agree there cannot be told apart by it: whatever it computes its keys from,
it finds the same words under them and writes the same. `Store.Matches` states
this of a relation between stores, also of different kinds, for single reads and
writes. An executor passes it on to whole evaluations, since what it counts does
not depend on the store. That the other spaces are left alone is carried by the
same relation.
-/

namespace StackCert

/-- Stores that agree have the same words in a space, and still agree after a write there. -/
structure Store.Matches {σ τ : Type} [Store σ] [Store τ] (space : Word) (agree : σ → τ → Prop) :
    Prop where
  get : ∀ {left : σ} {right : τ} (key : Word), agree left right →
    Store.get left ⟨space, key⟩ = Store.get right ⟨space, key⟩
  set : ∀ {left : σ} {right : τ} (key value : Word), agree left right →
    Host.Agrees agree (Store.set left ⟨space, key⟩ value) (Store.set right ⟨space, key⟩ value)

namespace Executor

variable {σ τ : Type} {agree : σ → τ → Prop}

/-- Executors that have counted the same and whose stores agree. -/
def InTune (agree : σ → τ → Prop) (left : Executor σ) (right : Executor τ) : Prop :=
  left.meter = right.meter ∧ agree left.store right.store

theorem inTune_start {left : σ} {right : τ} (agrees : agree left right) (limit : UInt64)
    (journal journal' : Journal) :
    InTune agree (start left limit journal) (start right limit journal') :=
  ⟨rfl, agrees⟩

theorem keepsPace_of_matches [Store σ] [Store τ] {space : Word}
    (matched : Store.Matches space agree) :
    (host : Host (Executor σ)).KeepsPace (host : Host (Executor τ)) space (InTune agree)
      fun _ => False := by
  constructor
  case observe =>
    intro left right event same
    exact same
  case permit =>
    rintro ⟨store, meter, journal⟩ ⟨store', meter', journal'⟩ instruction stack ⟨sameMeter, agrees⟩
    cases sameMeter
    exact Or.inl ⟨rfl, rfl, agrees⟩
  case get =>
    intro left right key same
    refine ⟨?_, same⟩
    simp only [host, matched.get key same.2]
  case set =>
    intro left right key value same
    have written := matched.set key value same.2
    exact ⟨written.1, same.1, written.2⟩
  case debug =>
    intro left right style machine same
    refine ⟨rfl, ?_⟩
    simp only [InTune, host, store_exhibit, meter_exhibit]
    exact same

end Executor

/-- Over stores that agree in its space an evaluation has the same result and keeps them so. -/
theorem Settings.evaluateWithLimit_of_matches {σ τ : Type} [Store σ] [Store τ]
    {agree : σ → τ → Prop} {request : Request} (matched : Store.Matches request.space agree)
    {left : σ} {right : τ} (agrees : agree left right) (settings : Settings)
    (expression : Expression) (stepLimit : UInt64) (journal journal' : Journal) :
    let onLeft := settings.evaluateWithLimit expression request stepLimit left journal
    let onRight := settings.evaluateWithLimit expression request stepLimit right journal'
    onLeft.1 = onRight.1 ∧ agree onLeft.2.store onRight.2.store := by
  intro onLeft onRight
  cases opened : settings.opening? expression request with
  | none =>
      simp only [onLeft, onRight, evaluateWithLimit_of_turnedAway opened]
      exact ⟨trivial, agrees⟩
  | some evaluation =>
      have owned : evaluation.space = request.space := by
        rcases opening?_eq_some_iff.mp opened with ⟨outputs, height, _, _, _, rfl⟩
        rfl
      rw [← owned] at matched
      have ends := (Evaluation.abreast_run (Executor.keepsPace_of_matches matched)
        (Executor.inTune_start agrees stepLimit journal journal') (running_of_opening? opened)).2
      rcases ran : evaluation.run Executor.host (.start left stepLimit journal) with
        ⟨exit, after, executor⟩
      rcases ran' : evaluation.run Executor.host (.start right stepLimit journal') with
        ⟨exit', after', executor'⟩
      rw [ran, ran'] at ends
      rcases ends with ⟨sameExit, sameAfter, _, agreeAfter⟩ | ⟨_, _, lags⟩
      · cases sameExit
        cases sameAfter
        rcases evaluateWithLimit_of_run opened ran with ⟨returned, kept, _⟩
        rcases evaluateWithLimit_of_run opened ran' with ⟨returned', kept', _⟩
        refine ⟨returned.trans returned'.symm, ?_⟩
        simp only [onLeft, onRight, kept, kept']
        exact agreeAfter
      · exact lags.elim

namespace SparseStore

variable {space : Word}

/-- Outside a space a store lists what another one lists. -/
def SameOutside (space : Word) (before after : SparseStore) : Prop :=
  ∀ other ≠ space, after.inSpace other = before.inSpace other

theorem SameOutside.put {before after : SparseStore} (same : SameOutside space before after)
    (key value : Word) : SameOutside space before (after.put ⟨space, key⟩ value) := by
  intro other elsewhere
  rw [inSpace_put_of_ne elsewhere.symm]
  exact same other elsewhere

/-- Stores with the same words in a space, each unchanged outside of it. -/
structure Confined (space : Word) (leftBefore rightBefore left right : SparseStore) : Prop where
  words : ∀ key, left.get ⟨space, key⟩ = right.get ⟨space, key⟩
  left : SameOutside space leftBefore left
  right : SameOutside space rightBefore right

theorem matches_confined (space : Word) (leftBefore rightBefore : SparseStore) :
    Store.Matches space (Confined space leftBefore rightBefore) := by
  constructor
  case get =>
    intro left right key confined
    exact confined.words key
  case set =>
    intro left right key value confined
    refine ⟨rfl, ?_, confined.left.put key value, confined.right.put key value⟩
    intro other
    simp only [Store.set, get_put, confined.words]

/-- Also the listings of a space stay the same, in which a written zero leaves no entry. -/
theorem matches_inSpace (space : Word) :
    Store.Matches space fun left right : SparseStore =>
      left.inSpace space = right.inSpace space := by
  constructor
  case get =>
    intro left right key same
    simp only [Store.get, get, Ledger.inSpace_eq_iff.mp same key]
  case set =>
    intro left right key value same
    exact ⟨rfl, inSpace_put_congr same ⟨space, key⟩ value⟩

end SparseStore

namespace Settings

/--
What an evaluation returns and leaves in its space is determined by the words in
that space, and it leaves all others alone. Of two stores with the same words in
the space of the request, both give the same result, a failure as well, and have
the same words there afterwards; if they listed the same entries there, they still
do. Neither has another entry than before in any other space.
-/
theorem spaces_do_not_interfere (settings : Settings) (expression : Expression)
    (request : Request) (stepLimit : UInt64) (journal journal' : Journal)
    {left right : SparseStore}
    (agree : ∀ key, left.get ⟨request.space, key⟩ = right.get ⟨request.space, key⟩) :
    let onLeft := settings.evaluateWithLimit expression request stepLimit left journal
    let onRight := settings.evaluateWithLimit expression request stepLimit right journal'
    onLeft.1 = onRight.1 ∧
    (∀ key, onLeft.2.store.get ⟨request.space, key⟩ = onRight.2.store.get ⟨request.space, key⟩) ∧
    (left.inSpace request.space = right.inSpace request.space →
      onLeft.2.store.inSpace request.space = onRight.2.store.inSpace request.space) ∧
    ∀ other ≠ request.space, onLeft.2.store.inSpace other = left.inSpace other ∧
      onRight.2.store.inSpace other = right.inSpace other := by
  intro onLeft onRight
  have starts : SparseStore.Confined request.space left right left right :=
    ⟨agree, fun _ _ => rfl, fun _ _ => rfl⟩
  rcases evaluateWithLimit_of_matches (SparseStore.matches_confined request.space left right) starts
    settings expression stepLimit journal journal' with ⟨sameResult, confined⟩
  refine ⟨sameResult, confined.words, ?_, ?_⟩
  · intro sameListing
    exact (evaluateWithLimit_of_matches (SparseStore.matches_inSpace request.space) sameListing
      settings expression stepLimit journal journal').2
  · intro other elsewhere
    exact ⟨confined.left other elsewhere, confined.right other elsewhere⟩

/-- A key is read and its word written at another, beside an entry of a foreign space. -/
theorem spaces_do_not_interfere_copied :
    let program : Program := ⟨#[#[0x00, 1, 0x00, 0, 0x30, 0, 0x31, 0, 0x00, 1, 0x30, 0]], #[7, 8]⟩
    let expression : Expression := ⟨program, ⟨[]⟩, [1], [2]⟩
    let request : Request := { space := 3 }
    let right : SparseStore := ({} : SparseStore).put ⟨3, 7⟩ 100
    let left : SparseStore := right.put ⟨5, 1⟩ 9
    let evaluated := fun store : SparseStore =>
      standard.evaluateWithLimit expression request 9 store
    (∀ key, left.get ⟨3, key⟩ = right.get ⟨3, key⟩) ∧
      (evaluated right).1 = .ok [100] ∧ (evaluated left).1 = (evaluated right).1 ∧
      (evaluated left).2.store.inSpace 3 = (evaluated right).2.store.inSpace 3 ∧
      (evaluated left).2.store.inSpace 5 = [(1, 9)] ∧ (evaluated right).2.store.inSpace 5 = [] := by
  intro program expression request right left evaluated
  have agree : ∀ key, left.get ⟨3, key⟩ = right.get ⟨3, key⟩ := by
    intro key
    simp only [left, SparseStore.get_put]
    simp
  have returned : (evaluated right).1 = .ok [100] ∧
      (evaluated right).2.store = right.put ⟨3, 8⟩ 100 :=
    evaluateWithLimit_of_runFor 7 rfl (by decide +kernel)
  rcases spaces_do_not_interfere standard expression request 9 {} {} agree with
    ⟨sameResult, _, sameListing, kept⟩
  have foreign := kept 5 (by decide)
  refine ⟨agree, returned.1, sameResult, sameListing ?_, foreign.1.trans ?_, foreign.2.trans ?_⟩
  · decide +kernel
  · decide +kernel
  · decide +kernel

end Settings

end StackCert
