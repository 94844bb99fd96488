import StackCert.Proofs.Abreast
import StackCert.Proofs.Native

/-!
# A step limit only cuts a run short

Two executors with different limits are run side by side, from the same store.
As long as both have counted the same number of instructions and neither limit is
reached they cannot be told apart, so the executor with the smaller limit gives
the same result as the other one, or it runs out first.

An evaluation that ran out was denied an instruction: a machine never gives that
reason by itself, and neither does a sparse store, which takes every word. The
meter denies only the instruction behind as many as the limit, before anything
of it happens. The store that is left is therefore the one in which the
evaluation with the larger limit comes to the same instruction.
-/

namespace StackCert

theorem SparseStore.set_ne_error (store after : SparseStore) (slot : Slot) (value : Word)
    (failure : Failure) : Store.set store slot value ≠ (.error failure, after) := by
  simp [Store.set]

namespace Executor

variable {σ : Type} {limit limit' : UInt64}

/-- Executors with the same store that have counted the same, each against its limit. -/
def InStep (limit limit' : UInt64) (left right : Executor σ) : Prop :=
  left.store = right.store ∧
    ∃ counted, left.meter.Counts limit counted ∧ right.meter.Counts limit' counted

theorem inStep_start (store : σ) (journal : Journal) (limit limit' : UInt64) :
    InStep limit limit' (start store limit journal) (start store limit' journal) :=
  ⟨rfl, 0, Meter.counts_ofLimit limit, Meter.counts_ofLimit limit'⟩

/-- An executor with a larger limit keeps pace until the smaller one is exhausted. -/
theorem keepsPace [Store σ] (within : limit ≤ limit') (space : Word) :
    (host : Host (Executor σ)).KeepsPace host space (InStep limit limit')
      (· = .resourceExhausted) := by
  constructor
  case observe =>
    intro executor executor' event same
    exact same
  case permit =>
    rintro executor executor' instruction stack ⟨sameStore, counted, counts, counts'⟩
    rcases count_of_counts counts instruction stack.size with
      ⟨after, granted, kept, countsOn⟩ | ⟨after, denied, _, _⟩
    · rcases count_of_counts counts' instruction stack.size with
        ⟨after', granted', kept', countsOn'⟩ | ⟨_, _, _, exhausted⟩
      · refine Or.inl ⟨?_, ?_, counted + 1, ?_⟩
        · simp only [host, granted, granted']
        · simp only [host, granted, granted', kept, kept', sameStore]
        · simp only [host, granted, granted']
          exact ⟨countsOn, countsOn'⟩
      · -- The larger limit cannot be reached first.
        have room := countsOn.within
        rw [countsOn.limit] at room
        have larger := UInt64.le_iff_toNat_le.mp within
        omega
    · exact Or.inr ⟨.resourceExhausted, by simp only [host, denied], rfl⟩
  case get =>
    rintro executor executor' key ⟨sameStore, counting⟩
    exact ⟨by simp only [host, sameStore], sameStore, counting⟩
  case set =>
    rintro executor executor' key value ⟨sameStore, counting⟩
    exact ⟨by simp only [host, sameStore], by simp only [host, sameStore], counting⟩
  case debug =>
    rintro executor executor' style machine ⟨sameStore, counting⟩
    refine ⟨rfl, ?_, ?_⟩
    · simp only [host, store_exhibit, sameStore]
    · simp only [host, meter_exhibit]
      exact counting

theorem exhausted_of_answer [Store σ] {inquiry : Inquiry (Executor σ)} {counted : Nat}
    {failure : Failure} {after : Executor σ} (counts : inquiry.state.meter.Counts limit counted)
    (answered : inquiry.answer host = (.error failure, after)) :
    counted = limit.toNat ∧ after.store = inquiry.state.store := by
  rw [Inquiry.answer, host] at answered
  rcases count_of_counts counts inquiry.instruction inquiry.stack.size with
    ⟨_, granted, _⟩ | ⟨_, denied, kept, exhausted⟩
  · cases granted.symm.trans answered
  · cases denied.symm.trans answered
    exact ⟨exhausted, kept⟩

end Executor

/-- What an inquiry shows of a run, apart from what its executor counts and logs. -/
def Inquiry.scene {σ : Type} (inquiry : Inquiry (Executor σ)) : Instruction × Stack × σ :=
  (inquiry.instruction, inquiry.stack, inquiry.state.store)

namespace Evaluation

variable {σ : Type} [Store σ] {evaluation after : Evaluation} {limit limit' : UInt64}

/-- With a larger limit a run goes through the same scenes, and maybe through more of them. -/
theorem map_scene_isPrefix (running : evaluation.Running) (within : limit ≤ limit') (store : σ)
    (journal : Journal) :
    (evaluation.inquiries Executor.host (.start store limit journal)).map Inquiry.scene <+:
      (evaluation.inquiries Executor.host (.start store limit' journal)).map Inquiry.scene := by
  rcases abreast_run (Executor.keepsPace within evaluation.space)
    (Executor.inStep_start store journal limit limit') running with ⟨⟨front, starts, alike⟩, _⟩
  have sameScenes :
      (evaluation.inquiries Executor.host (.start store limit journal)).map Inquiry.scene =
        front.map Inquiry.scene := by
    rw [← List.forall₂_eq_eq_eq, List.forall₂_map_left_iff, List.forall₂_map_right_iff]
    refine alike.imp fun left right same => ?_
    rw [Inquiry.scene, Inquiry.scene, same.instruction, same.stack, same.state.1]
  rw [sameScenes]
  exact starts.map Inquiry.scene

/-- An evaluation that ran out was denied the instruction behind as many as its limit. -/
theorem exists_denied_of_exhausted {store : SparseStore} {journal : Journal}
    {executor : Executor SparseStore} (running : evaluation.Running)
    (ran : evaluation.run Executor.host (.start store limit journal) =
      (.failed .resourceExhausted, after, executor)) :
    ∃ front denied, evaluation.inquiries Executor.host (.start store limit journal) =
        front ++ [denied] ∧
      (front ++ [denied]).filter (Inquiry.granted Executor.host) = front ∧
      front.length = limit.toNat ∧ executor.store = denied.state.store := by
  have concludes := concludes_execution running ran
  generalize evaluation.inquiries Executor.host (.start store limit journal) = asked at concludes
  cases concludes with
  | @denied front inquiry _ _ _ granted held answered =>
      rcases Executor.exhausted_of_answer held answered with ⟨exhausted, kept⟩
      refine ⟨front, inquiry, rfl, ?_, by omega, kept⟩
      have denied := Inquiry.not_granted_of_answer answered
      rw [List.filter_append, List.filter_eq_self.mpr granted]
      simp [denied]
  | refused granted refuses =>
      rcases refuses with ⟨store, slot, value, refused⟩
      exact absurd refused (SparseStore.set_ne_error store _ slot value _)
  | exited granted held last stepped =>
      -- The machine does not run out by itself.
      have native := Machine.native_of_step last.machine stepped
      simp [Failure.native] at native

/-- An evaluation that ran out stopped in front of the instruction that a larger limit allows. -/
theorem scenes_of_exhausted {store : SparseStore} {journal : Journal}
    {executor : Executor SparseStore} (running : evaluation.Running) (within : limit ≤ limit')
    (ran : evaluation.run Executor.host (.start store limit journal) =
      (.failed .resourceExhausted, after, executor)) :
    let asked := evaluation.inquiries Executor.host (.start store limit journal)
    let longAsked := evaluation.inquiries Executor.host (.start store limit' journal)
    let executed := asked.filter (Inquiry.granted Executor.host)
    let longExecuted := longAsked.filter (Inquiry.granted Executor.host)
    executed.length = limit.toNat ∧
    executed.map Inquiry.scene = (longExecuted.take limit.toNat).map Inquiry.scene ∧
    ∃ next, longAsked[limit.toNat]? = some next ∧ executor.store = next.state.store := by
  intro asked longAsked executed longExecuted
  rcases exists_denied_of_exhausted running ran with ⟨front, denied, split, granted, length, kept⟩
  have went : executed = front := by
    simp only [executed, asked, split, granted]
  rcases map_scene_isPrefix running within store journal with ⟨rest, scenes⟩
  -- The larger limit leads through the same scenes up to the denied one and maybe further.
  have longScenes : longAsked.map Inquiry.scene =
      front.map Inquiry.scene ++ denied.scene :: rest := by
    simp only [longAsked, ← scenes, split, List.map_append, List.map_singleton,
      List.append_assoc, List.singleton_append]
  have found : (longAsked.map Inquiry.scene)[limit.toNat]? = some denied.scene := by
    simp [longScenes, ← length]
  rw [List.getElem?_map] at found
  rcases Option.map_eq_some_iff.mp found with ⟨next, here, sameScene⟩
  have sameStore : next.state.store = denied.state.store := congrArg (·.2.2) sameScene
  have first : longExecuted.take limit.toNat = longAsked.take limit.toNat := by
    rcases longRan : evaluation.run Executor.host (.start store limit' journal) with
      ⟨longExit, longAfter, longExecutor⟩
    exact (concludes_execution running longRan).take_granted (List.getElem?_eq_some_iff.mp here).1
  refine ⟨went ▸ length, ?_, next, here, kept.trans sameStore.symm⟩
  rw [went, first, List.map_take, longScenes, ← length, ← List.length_map Inquiry.scene,
    List.take_left]

end Evaluation

namespace Settings

/-- The instructions that an evaluation executes: those that its executor permits. -/
def executed {σ : Type} [Store σ] (settings : Settings) (expression : Expression)
    (request : Request) (stepLimit : UInt64) (store : σ) (journal : Journal := {}) :
    List (Inquiry (Executor σ)) :=
  (settings.inquiries expression request stepLimit store journal).filter
    (Inquiry.granted Executor.host)

variable {settings : Settings} {expression : Expression} {request : Request}
  {limit limit' : UInt64} {journal : Journal}

theorem evaluateWithLimit_of_larger {σ : Type} [Store σ] {store : σ} (within : limit ≤ limit')
    (lasts : (settings.evaluateWithLimit expression request limit store journal).1 ≠
      .error .resourceExhausted) :
    let short := settings.evaluateWithLimit expression request limit store journal
    let long := settings.evaluateWithLimit expression request limit' store journal
    long.1 = short.1 ∧ long.2.store = short.2.store := by
  intro short long
  cases opened : settings.opening? expression request with
  | none =>
      simp only [short, long, evaluateWithLimit_of_turnedAway opened]
      exact ⟨trivial, rfl⟩
  | some evaluation =>
      rcases ran : evaluation.run Executor.host (.start store limit journal) with
        ⟨exit, after, executor⟩
      rcases longRan : evaluation.run Executor.host (.start store limit' journal) with
        ⟨longExit, longAfter, longExecutor⟩
      rcases evaluateWithLimit_of_run opened ran with ⟨returned, left, _⟩
      rcases evaluateWithLimit_of_run opened longRan with ⟨longReturned, longLeft, _⟩
      have ends := (Evaluation.abreast_run (Executor.keepsPace within evaluation.space)
        (Executor.inStep_start store journal limit limit') (running_of_opening? opened)).2
      rw [ran, longRan] at ends
      rcases ends with ⟨sameExit, sameAfter, sameStore, _⟩ | ⟨failure, fails, exhausted⟩
      · simp only at sameExit sameAfter sameStore
        subst sameExit sameAfter
        exact ⟨longReturned.trans returned.symm, longLeft.trans (sameStore.symm.trans left.symm)⟩
      · simp only at fails
        subst fails exhausted
        exact absurd returned lasts

theorem executed_of_exhausted {store : SparseStore} (within : limit ≤ limit')
    (exhausted : (settings.evaluateWithLimit expression request limit store journal).1 =
      .error .resourceExhausted) :
    let executed := settings.executed expression request limit store journal
    let longExecuted := settings.executed expression request limit' store journal
    let asked := settings.inquiries expression request limit' store journal
    executed.length = limit.toNat ∧
    executed.map Inquiry.scene = (longExecuted.take limit.toNat).map Inquiry.scene ∧
    ∃ next, asked[limit.toNat]? = some next ∧
      (settings.evaluateWithLimit expression request limit store journal).2.store =
        next.state.store := by
  intro executed longExecuted asked
  cases opened : settings.opening? expression request with
  | none =>
      rw [evaluateWithLimit_of_turnedAway opened] at exhausted
      simp at exhausted
  | some evaluation =>
      rcases ran : evaluation.run Executor.host (.start store limit journal) with
        ⟨exit, after, executor⟩
      rcases evaluateWithLimit_of_run opened ran with ⟨returned, left, _⟩
      have failed := Exit.result_eq_error_iff.mp (returned.symm.trans exhausted)
      subst failed
      rw [left]
      simp only [executed, longExecuted, asked, Settings.executed, inquiries, opened]
      exact Evaluation.scenes_of_exhausted (running_of_opening? opened) within ran

/--
An evaluation that does not run out gives the same result with every larger limit.
One that runs out has executed as many instructions as the limit, the first ones
of every evaluation with a larger limit, and leaves the store in which that
evaluation comes to the next instruction.
-/
theorem smaller_limit_cuts_short (settings : Settings) (expression : Expression)
    (request : Request) (store : SparseStore) (journal : Journal) {limit limit' : UInt64}
    (within : limit ≤ limit') :
    let short := settings.evaluateWithLimit expression request limit store journal
    let long := settings.evaluateWithLimit expression request limit' store journal
    let executed := settings.executed expression request limit store journal
    let longExecuted := settings.executed expression request limit' store journal
    let asked := settings.inquiries expression request limit' store journal
    (short.1 ≠ .error .resourceExhausted → long.1 = short.1 ∧ long.2.store = short.2.store) ∧
    (short.1 = .error .resourceExhausted →
      executed.length = limit.toNat ∧
      executed.map Inquiry.scene = (longExecuted.take limit.toNat).map Inquiry.scene ∧
      ∃ next, asked[limit.toNat]? = some next ∧ short.2.store = next.state.store) := by
  intro short long executed longExecuted asked
  exact ⟨evaluateWithLimit_of_larger within, executed_of_exhausted within⟩

/-- A key is written and read; a limit of four keeps the write and cuts off the read. -/
theorem smaller_limit_cuts_short_written :
    let program : Program := ⟨#[#[0x00, 0, 0x00, 1, 0x31, 0, 0x00, 0, 0x30, 0]], #[7, 100]⟩
    let expression : Expression := ⟨program, ⟨[]⟩, [1], [2]⟩
    let store : SparseStore := {}
    let evaluated := fun limit => standard.evaluateWithLimit expression {} limit store
    let asked := standard.inquiries expression {} 5 store
    ((4 : UInt64) ≤ 5 ∧ (evaluated 4).1 = .error .resourceExhausted ∧
      (evaluated 4).2.store = store.put ⟨0, 7⟩ 100 ∧
      (standard.executed expression {} 4 store).length = 4 ∧
      ∃ next, asked[4]? = some next ∧ (evaluated 4).2.store = next.state.store) ∧
    ((5 : UInt64) ≤ 9 ∧ (evaluated 5).1 = .ok [100] ∧ (evaluated 9).1 = (evaluated 5).1 ∧
      (evaluated 9).2.store = (evaluated 5).2.store) := by
  intro program expression store evaluated asked
  have four : (4 : UInt64) ≤ 5 := by decide
  have five : (5 : UInt64) ≤ 9 := by decide
  have cut : (evaluated 4).1 = .error .resourceExhausted ∧
      (evaluated 4).2.store = store.put ⟨0, 7⟩ 100 :=
    evaluateWithLimit_of_runFor 6 rfl (by decide +kernel)
  have whole : (evaluated 5).1 = .ok [100] ∧ (evaluated 5).2.store = store.put ⟨0, 7⟩ 100 :=
    evaluateWithLimit_of_runFor 6 rfl (by decide +kernel)
  rcases (smaller_limit_cuts_short standard expression {} store {} four).2 cut.1 with
    ⟨length, _, next⟩
  refine ⟨⟨four, cut.1, cut.2, length, next⟩, five, whole.1, ?_⟩
  apply (smaller_limit_cuts_short standard expression {} store {} five).1
  rw [show (standard.evaluateWithLimit expression {} 5 store {}).1 = _ from whole.1]
  simp

end Settings

end StackCert
