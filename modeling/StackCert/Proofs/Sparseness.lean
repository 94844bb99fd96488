import StackCert.Proofs.Confinement

/-!
# Dropped zeros cannot be told from kept ones

The sparse store erases the entry of a slot when a zero is written there, the
audit store keeps it. So the ledgers of the two drift apart in the course of an
evaluation, and they may hold zeros in different slots from the start. What can be
read in them stays the same, as a slot without an entry reads as zero:
`SparseStore.ReadsAs` is kept by every write, and no evaluation sees more of a
store than it reads. The same goes for evaluations one after another, of which
each finds what the ones before it, also the failed ones, have left.
-/

namespace StackCert

/-- An evaluation to be made, over whatever store there is. -/
structure Errand where
  settings : Settings
  expression : Expression
  request : Request
  stepLimit : UInt64
  journal : Journal := {}

namespace Errand

variable {σ τ : Type} [Store σ] [Store τ] {agree : σ → τ → Prop}

/-- What the evaluation gives over a store, and the store that it leaves. -/
def run (errand : Errand) (store : σ) : Except Failure (List Word) × σ :=
  let evaluated := errand.settings.evaluateWithLimit errand.expression errand.request
    errand.stepLimit store errand.journal
  (evaluated.1, evaluated.2.store)

/-- The results of evaluations one after another, and the store that the last one leaves. -/
def runAll : List Errand → σ → List (Except Failure (List Word)) × σ
  | [], store => ([], store)
  | errand :: errands, store =>
      let first := errand.run store
      let others := runAll errands first.2
      (first.1 :: others.1, others.2)

/-- Stores that agree, whatever the space, are not told apart by any sequence of evaluations. -/
theorem agrees_runAll (matched : ∀ space, Store.Matches space agree) (errands : List Errand) :
    ∀ {left : σ} {right : τ}, agree left right →
      (runAll errands left).1 = (runAll errands right).1 ∧
        agree (runAll errands left).2 (runAll errands right).2 := by
  induction errands with
  | nil =>
      intro left right agrees
      exact ⟨rfl, agrees⟩
  | cons errand errands ih =>
      intro left right agrees
      rcases Settings.evaluateWithLimit_of_matches (matched errand.request.space) agrees
        errand.settings errand.expression errand.stepLimit errand.journal errand.journal with
        ⟨sameFirst, agreeFirst⟩
      rcases ih agreeFirst with ⟨sameOthers, agreeOthers⟩
      exact ⟨congrArg₂ List.cons sameFirst sameOthers, agreeOthers⟩

/-- An evaluation whose run is known to end within some steps. -/
theorem run_of_runFor {errand : Errand} {evaluation : Evaluation} {store left : σ}
    {result : Except Failure (List Word)} (steps : Nat)
    (opened : errand.settings.opening? errand.expression errand.request = some evaluation)
    (ran : (evaluation.runFor Executor.host steps
      (.start store errand.stepLimit errand.journal)).map
      (fun ended => (ended.1.result ended.2.1, ended.2.2.store)) = some (result, left)) :
    errand.run store = (result, left) := by
  rcases Settings.evaluateWithLimit_of_runFor steps opened ran with ⟨returned, kept⟩
  exact Prod.ext returned kept

end Errand

namespace SparseStore

/-- The two stores read the same in every slot, and a write is refused by neither. -/
structure ReadsAs (sparse : SparseStore) (audit : AuditStore) : Prop where
  writable : audit.readOnly = false
  words : ∀ slot, sparse.get slot = audit.get slot

theorem ReadsAs.put {sparse : SparseStore} {audit : AuditStore} (alike : sparse.ReadsAs audit)
    (slot : Slot) (value : Word) :
    (sparse.put slot value).ReadsAs (audit.put slot value).2 := by
  constructor
  case writable =>
    rw [AuditStore.put_of_writable alike.writable]
    exact alike.writable
  case words =>
    intro other
    rw [get_put, AuditStore.get_put alike.writable, alike.words]

theorem matches_readsAs (space : Word) : Store.Matches space ReadsAs := by
  constructor
  case get =>
    intro sparse audit key alike
    exact alike.words ⟨space, key⟩
  case set =>
    intro sparse audit key value alike
    refine ⟨?_, alike.put ⟨space, key⟩ value⟩
    change Except.ok () = (audit.put ⟨space, key⟩ value).1
    rw [AuditStore.put_of_writable alike.writable]

/--
A sparse store and a writable audit store in which the same can be read, whatever
zeros either of them holds, serve every evaluation alike. The result is the same,
a failure as well, and the same can be read in them afterwards. Evaluations one
after another over each of the two likewise give the same results, one for one,
and leave stores in which the same can be read.
-/
theorem sparse_store_serves_as_audit_store {sparse : SparseStore} {audit : AuditStore}
    (writable : audit.readOnly = false) (agree : ∀ slot, sparse.get slot = audit.get slot) :
    (∀ (settings : Settings) (expression : Expression) (request : Request) (stepLimit : UInt64)
      (journal journal' : Journal),
      let onSparse := settings.evaluateWithLimit expression request stepLimit sparse journal
      let onAudit := settings.evaluateWithLimit expression request stepLimit audit journal'
      onSparse.1 = onAudit.1 ∧
      ∀ slot, onSparse.2.store.get slot = onAudit.2.store.get slot) ∧
    ∀ errands : List Errand,
      let onSparse := Errand.runAll errands sparse
      let onAudit := Errand.runAll errands audit
      onSparse.1 = onAudit.1 ∧ ∀ slot, onSparse.2.get slot = onAudit.2.get slot := by
  have alike : sparse.ReadsAs audit := ⟨writable, agree⟩
  constructor
  · intro settings expression request stepLimit journal journal' onSparse onAudit
    rcases Settings.evaluateWithLimit_of_matches (matches_readsAs request.space) alike settings
      expression stepLimit journal journal' with ⟨sameResult, alikeAfter⟩
    exact ⟨sameResult, alikeAfter.words⟩
  · intro errands onSparse onAudit
    rcases Errand.agrees_runAll matches_readsAs errands alike with ⟨sameResults, alikeAfter⟩
    exact ⟨sameResults, alikeAfter.words⟩

/--
Each store holds a zero that the other does not. The first evaluation writes a zero
under a key that it has read, the second one writes a zero and fails, and the third
one reads it.
-/
theorem sparse_store_serves_as_audit_store_in_turn :
    let sparse : SparseStore := ⟨.ofList [⟨⟨3, 7⟩, 0⟩, ⟨⟨3, 1⟩, 5⟩]⟩
    let audit : AuditStore := { ledger := .ofList [⟨⟨3, 9⟩, 0⟩, ⟨⟨3, 1⟩, 5⟩] }
    let errand : Code → Nat → Errand := fun code outputs =>
      ⟨.standard, ⟨⟨#[code], #[0, 1]⟩, ⟨[]⟩, [outputs], [2]⟩, { space := 3 }, 9, {}⟩
    let errands : List Errand :=
      [errand #[0x00, 1, 0x30, 0, 0x00, 0, 0x31, 0, 0x00, 1, 0x30, 0] 1,
        errand #[0x00, 1, 0x00, 0, 0x31, 0, 0x00, 0, 0x27, 4] 0,
        errand #[0x00, 1, 0x30, 0] 1]
    audit.readOnly = false ∧ (∀ slot, sparse.get slot = audit.get slot) ∧
      (Errand.runAll errands audit).1 = [.ok [5], .error (.ensureFailed 4), .ok [0]] ∧
      (Errand.runAll errands sparse).2 = ⟨.ofList [⟨⟨3, 7⟩, 0⟩]⟩ ∧
      (Errand.runAll errands audit).2.get ⟨3, 1⟩ = 0 := by
  intro sparse audit errand errands
  have agree : ∀ slot, sparse.get slot = audit.get slot := by
    intro slot
    simp only [get, AuditStore.get, sparse, audit, Ledger.ofList, List.foldl, Ledger.get?_insert]
    split_ifs <;> rfl
  have first : (errand #[0x00, 1, 0x30, 0, 0x00, 0, 0x31, 0, 0x00, 1, 0x30, 0] 1).run sparse =
      (.ok [5], sparse) := Errand.run_of_runFor 7 rfl (by decide +kernel)
  have second : (errand #[0x00, 1, 0x00, 0, 0x31, 0, 0x00, 0, 0x27, 4] 0).run sparse =
      (.error (.ensureFailed 4), ⟨.ofList [⟨⟨3, 7⟩, 0⟩]⟩) :=
    Errand.run_of_runFor 6 rfl (by decide +kernel)
  have third : (errand #[0x00, 1, 0x30, 0] 1).run ⟨.ofList [⟨⟨3, 7⟩, 0⟩]⟩ =
      (.ok [0], (⟨.ofList [⟨⟨3, 7⟩, 0⟩]⟩ : SparseStore)) :=
    Errand.run_of_runFor 3 rfl (by decide +kernel)
  have ran : Errand.runAll errands sparse =
      ([.ok [5], .error (.ensureFailed 4), .ok [0]], ⟨.ofList [⟨⟨3, 7⟩, 0⟩]⟩) := by
    simp only [errands, Errand.runAll, first, second, third]
  rcases (sparse_store_serves_as_audit_store rfl agree).2 errands with ⟨sameResults, sameWords⟩
  rw [ran] at sameResults sameWords
  refine ⟨rfl, agree, sameResults.symm, ?_, (sameWords ⟨3, 1⟩).symm⟩
  rw [ran]

end SparseStore

end StackCert
