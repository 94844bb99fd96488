import Mathlib.Logic.Function.Basic
import StackCert.Host.Plain
import StackCert.Proofs.Confinement
import StackCert.Proofs.Turn

/-!
# Evaluations that share a store

Evaluations of different spaces can take their steps in any order over one host.
Each of them goes through the states that it would go through alone, because the
steps of the others leave the listing of its space as it is, and it does not
depend on anything else.

The store that they share and the stores of the runs alone differ all the time.
What relates them is kept for each space by itself (`Joint.Gathers`): in the space
of a party the shared store lists what the party alone has left there, and in all
other spaces what was there at the start. A store is determined by its listings,
so schedules with the same moments for each party end in the same store.
-/

namespace StackCert

/-- A host that permits everything and works on a sparse store, which it keeps in its state. -/
structure Host.Serves {σ : Type} (host : Host σ) (store : σ → SparseStore) : Prop where
  observe : ∀ (state : σ) (event : Event), store (host.observe state event) = store state
  permit : ∀ (state : σ) (instruction : Instruction) (stack : Stack),
    (host.permit state instruction stack).1 = .ok () ∧
      store (host.permit state instruction stack).2 = store state
  get : ∀ (state : σ) (space key : Word),
    (host.get state space key).1 = .ok ((store state).get ⟨space, key⟩) ∧
      store (host.get state space key).2 = store state
  set : ∀ (state : σ) (space key value : Word),
    (host.set state space key value).1 = .ok () ∧
      store (host.set state space key value).2 = (store state).put ⟨space, key⟩ value
  /-- What is shown may be refused, but not because of anything that happened before. -/
  debug : ∀ (state state' : σ) (style : DebugStyle) (machine : Machine),
    (host.debug state style machine).1 = (host.debug state' style machine).1 ∧
      store (host.debug state style machine).2 = store state

theorem PlainHost.host_serves :
    (host : Host (PlainHost SparseStore)).Serves fun state => state.store :=
  ⟨fun _ _ => rfl, fun _ _ _ => ⟨rfl, rfl⟩, fun _ _ _ => ⟨rfl, rfl⟩, fun _ _ _ _ => ⟨rfl, rfl⟩,
    fun _ _ _ _ => ⟨rfl, rfl⟩⟩

/-- States with the same listing of a space, the first one unchanged outside of it. -/
structure SparseStore.SharedIn {σ : Type} (space : Word) (store : σ → SparseStore) (before : σ)
    (shared alone : σ) : Prop where
  listing : (store shared).inSpace space = (store alone).inSpace space
  outside : SameOutside space (store before) (store shared)

theorem Host.Serves.keepsPace {σ : Type} {host : Host σ} {store : σ → SparseStore}
    (serves : host.Serves store) (space : Word) (before : σ) :
    host.KeepsPace host space (SparseStore.SharedIn space store before) fun _ => False := by
  constructor
  case observe =>
    intro shared alone event same
    constructor
    · rw [serves.observe, serves.observe]
      exact same.listing
    · rw [serves.observe]
      exact same.outside
  case permit =>
    intro shared alone instruction stack same
    have first := serves.permit shared instruction stack
    have second := serves.permit alone instruction stack
    refine Or.inl ⟨first.1.trans second.1.symm, ?_, ?_⟩
    · rw [first.2, second.2]
      exact same.listing
    · rw [first.2]
      exact same.outside
  case get =>
    intro shared alone key same
    have first := serves.get shared space key
    have second := serves.get alone space key
    have sameWord : (store shared).get ⟨space, key⟩ = (store alone).get ⟨space, key⟩ :=
      (SparseStore.matches_inSpace space).get key same.listing
    refine ⟨?_, ?_, ?_⟩
    · rw [first.1, second.1, sameWord]
    · rw [first.2, second.2]
      exact same.listing
    · rw [first.2]
      exact same.outside
  case set =>
    intro shared alone key value same
    have first := serves.set shared space key value
    have second := serves.set alone space key value
    refine ⟨first.1.trans second.1.symm, ?_, ?_⟩
    · rw [first.2, second.2]
      exact SparseStore.inSpace_put_congr same.listing ⟨space, key⟩ value
    · rw [first.2]
      exact same.outside.put key value
  case debug =>
    intro shared alone style machine same
    have first := serves.debug shared alone style machine
    have second := serves.debug alone shared style machine
    refine ⟨first.1, ?_, ?_⟩
    · rw [first.2, second.2]
      exact same.listing
    · rw [first.2]
      exact same.outside

namespace Evaluation

variable {σ : Type} {host : Host σ} {store : σ → SparseStore} {evaluation : Evaluation}

/-- Also over a shared store a step is what it is alone, and it changes no other space. -/
theorem shared_step (serves : host.Serves store) {space : Word} {shared alone : σ}
    (moment : (evaluation.Running ∧ evaluation.space = space) ∨ ∃ exit, evaluation.Ended exit)
    (same : (store shared).inSpace space = (store alone).inSpace space) :
    Abreast (SparseStore.SharedIn space store shared) (evaluation.step host shared)
      (evaluation.step host alone) := by
  have alike : SparseStore.SharedIn space store shared shared alone := ⟨same, fun _ _ => rfl⟩
  rcases moment with ⟨running, rfl⟩ | ⟨exit, ended⟩
  · rcases abreast_step (serves.keepsPace _ shared) alike running with abreast | ⟨_, _, lags⟩
    · exact abreast
    · exact lags.elim
  · rw [step_of_ended ended, step_of_ended ended]
    exact ⟨rfl, rfl, alike⟩

end Evaluation

/-- Evaluations that share the state of a host. -/
structure Joint (ι σ : Type) where
  evaluations : ι → Evaluation
  state : σ

namespace Joint

variable {ι σ : Type} [DecidableEq ι]

/-- One party takes a step. -/
def step (host : Host σ) (joint : Joint ι σ) (party : ι) : Joint ι σ :=
  let stepped := (joint.evaluations party).step host joint.state
  ⟨Function.update joint.evaluations party stepped.2.1, stepped.2.2⟩

/-- The parties take their steps as a schedule says. -/
def after (host : Host σ) (joint : Joint ι σ) (schedule : List ι) : Joint ι σ :=
  schedule.foldl (step host) joint

/-- One party runs to its end. -/
def run (host : Host σ) (joint : Joint ι σ) (party : ι) : Joint ι σ :=
  let ran := (joint.evaluations party).run host joint.state
  ⟨Function.update joint.evaluations party ran.2.1, ran.2.2⟩

/-- The parties run to their ends one after the other. -/
def inTurn (host : Host σ) (joint : Joint ι σ) (order : List ι) : Joint ι σ :=
  order.foldl (run host) joint

/-- All parties have come to an exit. -/
def Over (joint : Joint ι σ) : Prop :=
  ∀ party, (joint.evaluations party).status ≠ none

/--
A later moment consists of what each party has come to alone: its evaluation, and
the listing of its space. All other spaces are as at the start.
-/
structure Gathers (store : σ → SparseStore) (joint later : Joint ι σ)
    (alone : ι → Evaluation × σ) : Prop where
  evaluations : ∀ party, later.evaluations party = (alone party).1
  listings : ∀ party, (store later.state).inSpace (joint.evaluations party).space =
    (store (alone party).2).inSpace (joint.evaluations party).space
  elsewhere : ∀ space, (∀ party, (joint.evaluations party).space ≠ space) →
    (store later.state).inSpace space = (store joint.state).inSpace space

variable {host : Host σ} {store : σ → SparseStore} {joint later later' : Joint ι σ}
  {alone : ι → Evaluation × σ}

omit [DecidableEq ι] in
/-- What the parties come to alone determines their evaluations and the whole store. -/
theorem Gathers.unique (gathers : joint.Gathers store later alone)
    (gathers' : joint.Gathers store later' alone) :
    later.evaluations = later'.evaluations ∧ store later.state = store later'.state := by
  constructor
  · funext party
    exact (gathers.evaluations party).trans (gathers'.evaluations party).symm
  · apply SparseStore.eq_of_inSpace
    intro space
    by_cases owned : ∃ party, (joint.evaluations party).space = space
    · rcases owned with ⟨party, rfl⟩
      exact (gathers.listings party).trans (gathers'.listings party).symm
    · have unowned : ∀ party, (joint.evaluations party).space ≠ space := by
        intro party isOwner
        exact owned ⟨party, isOwner⟩
      exact (gathers.elsewhere space unowned).trans (gathers'.elsewhere space unowned).symm

theorem evaluations_step_self (party : ι) :
    (joint.step host party).evaluations party =
      ((joint.evaluations party).step host joint.state).2.1 :=
  Function.update_self ..

theorem evaluations_step_of_ne {party other : ι} (isOther : other ≠ party) :
    (joint.step host party).evaluations other = joint.evaluations other :=
  Function.update_of_ne isOther ..

theorem after_cons (host : Host σ) (joint : Joint ι σ) (party : ι) (schedule : List ι) :
    joint.after host (party :: schedule) = (joint.step host party).after host schedule :=
  rfl

/-- What each party comes to alone in a number of steps. -/
def solo (host : Host σ) (joint : Joint ι σ) (steps : ι → Nat) (party : ι) : Evaluation × σ :=
  (joint.evaluations party).after host joint.state (steps party)

omit [DecidableEq ι] in
theorem gathers_start (host : Host σ) (store : σ → SparseStore) (joint : Joint ι σ) :
    joint.Gathers store joint (joint.solo host fun _ => 0) :=
  ⟨fun _ => rfl, fun _ => rfl, fun _ _ => rfl⟩

section Schedules

variable (serves : host.Serves store) (running : ∀ party, (joint.evaluations party).Running)
include serves running

omit [DecidableEq ι] in
/-- The next step of a party is what it would be alone. -/
theorem Gathers.abreast {steps : ι → Nat}
    (gathers : joint.Gathers store later (joint.solo host steps)) (party : ι) :
    Evaluation.Abreast
      (SparseStore.SharedIn (joint.evaluations party).space store later.state)
      ((later.evaluations party).step host later.state)
      ((joint.evaluations party).stepAfter host joint.state (steps party)) := by
  have moment := Evaluation.running_or_ended_after host joint.state (running party) (steps party)
  rw [gathers.evaluations party]
  exact Evaluation.shared_step serves moment (gathers.listings party)

variable (apart : Function.Injective fun party => (joint.evaluations party).space)
include apart

/-- A party that takes a step is one step further, and the others do not notice it. -/
theorem Gathers.next {steps : ι → Nat}
    (gathers : joint.Gathers store later (joint.solo host steps)) (party : ι) :
    joint.Gathers store (later.step host party)
      (joint.solo host (Function.update steps party (steps party + 1))) := by
  have abreast := gathers.abreast serves running party
  constructor
  case evaluations =>
    intro other
    by_cases isParty : other = party
    · subst isParty
      rw [evaluations_step_self, solo, Function.update_self]
      exact abreast.evaluation
    · rw [evaluations_step_of_ne isParty, solo, Function.update_of_ne isParty]
      exact gathers.evaluations other
  case listings =>
    intro other
    by_cases isParty : other = party
    · subst isParty
      rw [solo, Function.update_self]
      exact abreast.state.listing
    · have foreign : (joint.evaluations other).space ≠ (joint.evaluations party).space :=
        fun sameSpace => isParty (apart sameSpace)
      rw [solo, Function.update_of_ne isParty]
      exact (abreast.state.outside _ foreign).trans (gathers.listings other)
  case elsewhere =>
    intro space unowned
    exact (abreast.state.outside space (unowned party).symm).trans (gathers.elsewhere space unowned)

theorem Gathers.along {steps : ι → Nat}
    (gathers : joint.Gathers store later (joint.solo host steps)) (schedule : List ι) :
    joint.Gathers store (later.after host schedule)
      (joint.solo host fun party => steps party + schedule.count party) := by
  induction schedule generalizing later steps with
  | nil => exact gathers
  | cons party schedule ih =>
      have counted : (fun other => steps other + (party :: schedule).count other) = fun other =>
          Function.update steps party (steps party + 1) other + schedule.count other := by
        funext other
        by_cases isParty : other = party
        · subst isParty
          rw [List.count_cons_self, Function.update_self]
          omega
        · rw [List.count_cons_of_ne (Ne.symm isParty), Function.update_of_ne isParty]
      rw [after_cons, counted]
      exact ih (gathers.next serves running apart party)

end Schedules

/-- A party that runs to its end takes steps until then and leaves the others waiting. -/
theorem after_replicate (host : Host σ) (joint : Joint ι σ) (party : ι) (steps : Nat) :
    joint.after host (List.replicate steps party) =
      let alone := (joint.evaluations party).after host joint.state steps
      ⟨Function.update joint.evaluations party alone.1, alone.2⟩ := by
  induction steps generalizing joint with
  | zero =>
      simp only [Evaluation.after, Function.update_eq_self]
      rfl
  | succ steps ih =>
      rw [List.replicate_succ, after_cons, ih, evaluations_step_self, Evaluation.after_succ]
      simp only [step, Function.update_idem]

theorem evaluations_run_self (party : ι) :
    (joint.run host party).evaluations party =
      ((joint.evaluations party).run host joint.state).2.1 :=
  Function.update_self ..

theorem exists_run_eq_after (host : Host σ) (joint : Joint ι σ) (party : ι) :
    ∃ count, joint.run host party = joint.after host (List.replicate count party) := by
  rcases Evaluation.exists_last_step host (joint.evaluations party) joint.state with
    ⟨count, _, exit, _, _, ran⟩
  refine ⟨count + 1, ?_⟩
  rw [after_replicate, run, ran]
  rfl

section Ends

variable (serves : host.Serves store) (running : ∀ party, (joint.evaluations party).Running)
  (apart : Function.Injective fun party => (joint.evaluations party).space)
include serves running apart

/-- Running in turn is a schedule as well, at whose end the parties of the order have ended. -/
theorem Gathers.inTurn {steps : ι → Nat}
    (gathers : joint.Gathers store later (joint.solo host steps)) (order : List ι) :
    ∃ steps', (∀ party, steps party ≤ steps' party) ∧
      joint.Gathers store (later.inTurn host order) (joint.solo host steps') ∧
      ∀ party ∈ order, (joint.solo host steps' party).1.status ≠ none := by
  induction order generalizing later steps with
  | nil =>
      refine ⟨steps, fun _ => Nat.le_refl _, gathers, ?_⟩
      intro party inNone
      exact absurd inNone List.not_mem_nil
  | cons party order ih =>
      rcases later.exists_run_eq_after host party with ⟨count, ranAs⟩
      have ran := gathers.along serves running apart (List.replicate count party)
      rw [← ranAs] at ran
      -- The party has ended with its run, and stays so while the others have their turns.
      have hasEnded : ((later.run host party).evaluations party).status ≠ none := by
        rw [evaluations_run_self, gathers.evaluations party]
        apply Evaluation.status_run host
        exact (Evaluation.running_or_ended_after host joint.state (running party)
          (steps party)).imp_left And.left
      rw [ran.evaluations party] at hasEnded
      rcases ih ran with ⟨steps', grown, gathersOn, ends⟩
      refine ⟨steps', fun other => Nat.le_trans (Nat.le_add_right _ _) (grown other), gathersOn, ?_⟩
      intro other member
      rcases List.mem_cons.mp member with rfl | inRest
      · exact Evaluation.status_after_of_le (running other) hasEnded (grown other)
      · exact ends other inRest

omit serves apart in
omit [DecidableEq ι] in
theorem solo_eq_run {steps : ι → Nat}
    (hasEnded : ∀ party, (joint.solo host steps party).1.status ≠ none) :
    joint.solo host steps = fun party => ((joint.evaluations party).run host joint.state).2 := by
  funext party
  exact (Evaluation.after_eq_run (running party) (hasEnded party)).1

end Ends

/--
Evaluations of different spaces do not notice each other. However their steps are
interleaved over one store, each goes through the states that it goes through
alone and every step returns what it returns alone. The store lists in each of
their spaces what the run alone leaves there, and elsewhere what it listed before.
So the order of the steps does not matter. Once all have ended, each has the exit
of its run, and the evaluations and the store are those that the runs leave one
after the other, in any order.
-/
theorem interleaved_evaluations_commute (serves : host.Serves store) (joint : Joint ι σ)
    (running : ∀ party, (joint.evaluations party).Running)
    (apart : Function.Injective fun party => (joint.evaluations party).space) :
    (∀ schedule : List ι,
      let now := joint.after host schedule
      joint.Gathers store now (joint.solo host schedule.count) ∧
      ∀ party, ((now.evaluations party).step host now.state).1 =
        ((joint.evaluations party).stepAfter host joint.state (schedule.count party)).1) ∧
    (∀ schedule schedule' : List ι, schedule.Perm schedule' →
      (joint.after host schedule).evaluations = (joint.after host schedule').evaluations ∧
      store (joint.after host schedule).state = store (joint.after host schedule').state) ∧
    ∀ schedule : List ι, (joint.after host schedule).Over →
      let now := joint.after host schedule
      let ran := fun party => (joint.evaluations party).run host joint.state
      joint.Gathers store now (fun party => (ran party).2) ∧
      (∀ party, (now.evaluations party).status = some (ran party).1) ∧
      (∀ schedule' : List ι, (joint.after host schedule').Over →
        (joint.after host schedule').evaluations = now.evaluations ∧
        store (joint.after host schedule').state = store now.state) ∧
      ∀ order : List ι, (∀ party, party ∈ order) →
        (joint.inTurn host order).evaluations = now.evaluations ∧
        store (joint.inTurn host order).state = store now.state := by
  have started := joint.gathers_start host store
  have gathers (schedule : List ι) :
      joint.Gathers store (joint.after host schedule) (joint.solo host schedule.count) := by
    have along := started.along serves running apart schedule
    simp only [Nat.zero_add] at along
    exact along
  refine ⟨?_, ?_, ?_⟩
  · intro schedule now
    refine ⟨gathers schedule, ?_⟩
    intro party
    exact ((gathers schedule).abreast serves running party).outcome
  · intro schedule schedule' reordered
    apply (gathers schedule).unique
    have sameCounts : schedule.count = schedule'.count := by
      funext party
      exact reordered.count_eq party
    rw [sameCounts]
    exact gathers schedule'
  · intro schedule hasEnded now ran
    have soloOver {schedule : List ι} (hasEnded : (joint.after host schedule).Over) (party : ι) :
        (joint.solo host schedule.count party).1.status ≠ none := by
      rw [← (gathers schedule).evaluations party]
      exact hasEnded party
    have gathersRuns {schedule : List ι} (hasEnded : (joint.after host schedule).Over) :
        joint.Gathers store (joint.after host schedule) (fun party => (ran party).2) := by
      rw [← solo_eq_run running (soloOver hasEnded)]
      exact gathers schedule
    refine ⟨gathersRuns hasEnded, ?_, ?_, ?_⟩
    · intro party
      rw [(gathers schedule).evaluations party]
      exact (Evaluation.after_eq_run (running party) (soloOver hasEnded party)).2
    · intro schedule' hasEnded'
      exact (gathersRuns hasEnded').unique (gathersRuns hasEnded)
    · intro order everyone
      rcases started.inTurn serves running apart order with ⟨steps, _, gathersTurns, ends⟩
      rw [solo_eq_run running fun party => ends party (everyone party)] at gathersTurns
      exact gathersTurns.unique (gathersRuns hasEnded)

/--
One party copies a word of its space to another key and the other one clears a key
of its own before a test fails. Their steps alternate, and both serial orders agree.
-/
theorem interleaved_evaluations_commute_alternating :
    let copying : Program := ⟨#[#[0x00, 1, 0x00, 0, 0x30, 0, 0x31, 0]], #[7, 8]⟩
    let clearing : Program := ⟨#[#[0x00, 0, 0x00, 1, 0x31, 0, 0x00, 1, 0x27, 2]], #[7, 0]⟩
    let host : Host (PlainHost SparseStore) := PlainHost.host
    let store : PlainHost SparseStore → SparseStore := fun state => state.store
    let opening := (({} : SparseStore).put ⟨3, 7⟩ 100).put ⟨4, 7⟩ 200
    let evaluations : Bool → Evaluation := fun clears =>
      if clears then .start (.start clearing ⟨[]⟩ 0 0 2 .standard) 4
      else .start (.start copying ⟨[]⟩ 0 0 9 .standard) 3
    let joint : Joint Bool (PlainHost SparseStore) := ⟨evaluations, ⟨opening, {}⟩⟩
    let schedule := [false, true, false, true, false, true, false, true, false, true]
    host.Serves store ∧ (∀ party, (joint.evaluations party).Running) ∧
      (Function.Injective fun party => (joint.evaluations party).space) ∧
      ((joint.after host schedule).evaluations false).status = some .stopped ∧
      ((joint.after host schedule).evaluations true).status = some (.failed (.ensureFailed 2)) ∧
      store (joint.inTurn host [false, true]).state =
        (({} : SparseStore).put ⟨3, 7⟩ 100).put ⟨3, 8⟩ 100 ∧
      store (joint.inTurn host [true, false]).state =
        (({} : SparseStore).put ⟨3, 7⟩ 100).put ⟨3, 8⟩ 100 := by
  intro copying clearing host store opening evaluations joint schedule
  have serves : host.Serves store := PlainHost.host_serves
  have running : ∀ party, (joint.evaluations party).Running := by
    intro party
    cases party <;> exact ⟨rfl, rfl, List.cons_ne_nil _ _⟩
  have differ : ∀ left right : Bool,
      (joint.evaluations left).space = (joint.evaluations right).space → left = right := by
    decide
  have apart : Function.Injective fun party => (joint.evaluations party).space := by
    intro left right
    exact differ left right
  have ends : ((joint.after host schedule).evaluations false).status = some .stopped ∧
      ((joint.after host schedule).evaluations true).status = some (.failed (.ensureFailed 2)) ∧
      store (joint.after host schedule).state =
        (({} : SparseStore).put ⟨3, 7⟩ 100).put ⟨3, 8⟩ 100 := by
    decide +kernel
  rcases ends with ⟨copied, failed, left⟩
  have hasEnded : (joint.after host schedule).Over := by
    intro party
    cases party
    · rw [copied]
      exact Option.some_ne_none _
    · rw [failed]
      exact Option.some_ne_none _
  rcases (interleaved_evaluations_commute serves joint running apart).2.2 schedule hasEnded with
    ⟨_, _, _, serial⟩
  refine ⟨serves, running, apart, copied, failed, ?_, ?_⟩
  · exact (serial [false, true] (by decide)).2.trans left
  · exact (serial [true, false] (by decide)).2.trans left

end Joint

end StackCert
