import StackCert.Proofs.CertifiedCells
import StackCert.Proofs.Consultation
import StackCert.Proofs.Contents

/-!
# The events of a run are a faithful account

An executor that is listened to notes an event for every instruction it is asked
to permit, and for every read and write that has succeeded. From these events
alone the store can be worked out at any moment: `Store.replay` makes the writes
that they tell of. `Store.Recounts` says that this gives the store there is, that
every word told to have been read was to be found at that moment, and that all of
it happened in one space.

Each answer of the executor keeps the account true, also an answer that ends the
run. The meter counts an instruction after its event was noted. So the events are
as many instructions as were counted, and one more if the meter is exhausted.
-/

namespace StackCert

namespace Event

/-- The space in which an evaluation met with an event. -/
def space? : Event → Option Word
  | .step space _ _ | .get space _ _ | .set space _ _ => some space
  | .deploy .. => none

/-- Whether an event announces an instruction. -/
def isStep : Event → Bool
  | .step .. => true
  | _ => false

/-- The entry that was written, if an event tells of a write. -/
def write? : Event → Option Entry
  | .set space key value => some ⟨⟨space, key⟩, value⟩
  | _ => none

end Event

namespace Store

variable {σ : Type} [Store σ]

/-- Makes the write that an event tells of, if it does. -/
def redo (store : σ) (event : Event) : Except Failure σ :=
  match event.write? with
  | none => .ok store
  | some entry =>
      match Store.set store entry.slot entry.value with
      | (.ok (), after) => .ok after
      | (.error failure, _) => .error failure

/-- Makes the writes that events tell of, in order; the store has to take each of them. -/
def replay (store : σ) (events : List Event) : Except Failure σ := events.foldlM redo store

theorem replay_snoc (store : σ) (events : List Event) (event : Event) :
    replay store (events ++ [event]) =
      (replay store events).bind fun after => redo after event := by
  simp only [replay, List.foldlM_append, List.foldlM_cons, List.foldlM_nil, bind_pure]
  rfl

/-- A store does not change with a write that it refuses. -/
def Steady (σ : Type) [Store σ] : Prop :=
  ∀ {store after : σ} {slot : Slot} {value : Word} {failure : Failure},
    Store.set store slot value = (.error failure, after) → after = store

/-- What events in a space tell of a store is what happened to it. -/
structure Recounts (space : Word) (events : List Event) (before after : σ) : Prop where
  writes : replay before events = .ok after
  /-- What was read is what the writes in front of the reading leave there. -/
  reads : ∀ {index : Nat} {other key value : Word},
    events[index]? = some (.get other key value) →
    ∃ store, replay before (events.take index) = .ok store ∧
      value = Store.get store ⟨other, key⟩
  owned : ∀ event ∈ events, event.space? = some space

variable {space : Word} {events : List Event} {before between after : σ}

theorem recounts_nil (space : Word) (store : σ) : Recounts space [] store store :=
  ⟨rfl, by simp, by simp⟩

theorem Recounts.snoc (recounts : Recounts space events before between) {event : Event}
    (redone : redo between event = .ok after) (owned : event.space? = some space)
    (read : ∀ other key value, event = .get other key value →
      value = Store.get between ⟨other, key⟩) :
    Recounts space (events ++ [event]) before after := by
  constructor
  case writes =>
    rw [replay_snoc, recounts.writes]
    exact redone
  case reads =>
    intro index other key value found
    rcases Nat.lt_or_ge index events.length with earlier | last
    · rw [List.getElem?_append_left earlier] at found
      rw [List.take_append_of_le_length (Nat.le_of_lt earlier)]
      exact recounts.reads found
    · have inside := (List.getElem?_eq_some_iff.mp found).1
      rw [List.length_append, List.length_singleton] at inside
      have isLast : index = events.length := by omega
      rw [isLast, List.getElem?_concat_length] at found
      rw [isLast, List.take_left]
      exact ⟨between, recounts.writes, read other key value (Option.some.inj found)⟩
  case owned =>
    intro noted member
    rcases List.mem_append.mp member with isEarlier | isLast
    · exact recounts.owned noted isEarlier
    · rw [List.mem_singleton.mp isLast]
      exact owned

end Store

theorem SparseStore.steady : Store.Steady SparseStore := by
  intro store after slot value failure refused
  simp [Store.set] at refused

theorem AuditStore.steady : Store.Steady AuditStore := by
  intro store after slot value failure refused
  simp only [Store.set, put] at refused
  split at refused
  · cases refused
    rfl
  · simp at refused

theorem AuditStore.writes_of_redo {event : Event} {before after : AuditStore}
    (redone : Store.redo before event = .ok after) :
    after.writes.toList = before.writes.toList ++ event.write?.toList := by
  unfold Store.redo at redone
  cases told : event.write? with
  | none =>
      rw [told] at redone
      cases redone
      simp
  | some entry =>
      simp only [told, Store.set] at redone
      cases refuses : before.readOnly with
      | true => simp [put, refuses] at redone
      | false =>
          rw [put_of_writable refuses] at redone
          cases redone
          simp

/-- An audit store lists the writes that it takes in a replay. -/
theorem AuditStore.writes_of_replay {events : List Event} {before after : AuditStore}
    (replayed : Store.replay before events = .ok after) :
    after.writes.toList = before.writes.toList ++ events.filterMap Event.write? := by
  rw [List.filterMap_eq_flatMap_toList]
  induction events generalizing before with
  | nil =>
      cases replayed
      simp
  | cons event events ih =>
      simp only [Store.replay, List.foldlM_cons, bind, Except.bind] at replayed
      cases redone : Store.redo before event with
      | error failure => simp [redone] at replayed
      | ok between =>
          rw [redone] at replayed
          rw [ih replayed, writes_of_redo redone, List.flatMap_cons, List.append_assoc]

namespace Executor

variable {σ : Type} [Store σ]

/-- The events noted by an executor, which started with a limit and a store, are a full account. -/
structure Chronicled (executor : Executor σ) (space : Word) (limit : UInt64) (before : σ) :
    Prop where
  recounts : Store.Recounts space executor.journal.events.toList before executor.store
  steps : executor.journal.events.toList.countP Event.isStep =
    if executor.meter.isExhausted then limit.toNat + 1 else executor.meter.used.toNat

/-- An executor in the middle of a run, whose events tell all that has happened so far. -/
structure Chronicles (executor : Executor σ) (space : Word) (limit : UInt64) (before : σ) :
    Prop where
  listening : executor.journal.listening = true
  recounts : Store.Recounts space executor.journal.events.toList before executor.store
  counts : executor.meter.Counts limit (executor.journal.events.toList.countP Event.isStep)

theorem chronicles_start (space : Word) (limit : UInt64) (store : σ) (level? : Option Level) :
    (start store limit { level?, listening := true }).Chronicles space limit store :=
  ⟨rfl, Store.recounts_nil space store, Meter.counts_ofLimit limit⟩

variable {executor after : Executor σ} {space : Word} {limit : UInt64} {before : σ}

theorem Chronicles.chronicled (chronicles : executor.Chronicles space limit before) :
    executor.Chronicled space limit before := by
  refine ⟨chronicles.recounts, ?_⟩
  rw [chronicles.counts.not_exhausted, chronicles.counts.used_eq]
  rfl

theorem Chronicles.of_sameRecord (chronicles : executor.Chronicles space limit before)
    (same : executor.SameRecord after) : after.Chronicles space limit before := by
  refine ⟨?_, ?_, ?_⟩
  · rw [← same.listening]
    exact chronicles.listening
  · rw [← same.events, ← same.store]
    exact chronicles.recounts
  · rw [← same.events, ← same.meter]
    exact chronicles.counts

theorem events_observe (listening : executor.journal.listening = true) (event : Event) :
    (host.observe executor event).journal.events.toList =
      executor.journal.events.toList ++ [event] := by
  simp [host, Journal.note, listening]

theorem listening_observe (listening : executor.journal.listening = true) (event : Event) :
    (host.observe executor event).journal.listening = true := by
  simp [host, Journal.note, listening]

/-- An access to the store is told by the event that follows it. -/
theorem Chronicles.note (chronicles : executor.Chronicles space limit before) {event : Event}
    {store : σ} (redone : Store.redo executor.store event = .ok store)
    (owned : event.space? = some space) (quiet : event.isStep = false)
    (read : ∀ other key value, event = .get other key value →
      value = Store.get executor.store ⟨other, key⟩) :
    (host.observe { executor with store } event).Chronicles space limit before := by
  have listening : ({ executor with store } : Executor σ).journal.listening = true :=
    chronicles.listening
  refine ⟨listening_observe listening event, ?_, ?_⟩
  · rw [events_observe listening]
    exact chronicles.recounts.snoc redone owned read
  · rw [events_observe listening, List.countP_append, List.countP_singleton, quiet]
    exact chronicles.counts

/-- Whatever an executor answers to an instruction that is left to it, its account stays true. -/
theorem Chronicles.of_resolves (steady : Store.Steady σ) {evaluation next : Evaluation}
    {instruction : Instruction} {result : Except Failure Unit}
    (chronicles : executor.Chronicles space limit before)
    (resolves : evaluation.Resolves host executor instruction result next after)
    (owned : evaluation.space = space) : after.Chronicles space limit before := by
  subst owned
  cases resolves with
  | read _ _ answer _ =>
      cases answer
      refine chronicles.note rfl rfl rfl ?_
      rintro _ _ _ ⟨⟩
      rfl
  | unread _ _ answer => simp [host] at answer
  | @written key value _ _ _ _ _ _ answer =>
      simp only [host] at answer
      rcases written : Store.set executor.store ⟨evaluation.space, key⟩ value with ⟨result, store⟩
      rw [written] at answer
      cases answer
      refine chronicles.note ?_ rfl rfl (by simp)
      simp only [Store.redo, Event.write?, written]
  | @unwritten key value _ _ _ _ _ _ _ answer =>
      simp only [host] at answer
      rcases refused : Store.set executor.store ⟨evaluation.space, key⟩ value with ⟨result, store⟩
      rw [refused] at answer
      cases answer
      rw [steady refused]
      exact chronicles
  | @shown style _ _ _ _ answer =>
      cases answer
      exact chronicles.of_sameRecord (executor.sameRecord_exhibit style evaluation.machine)

omit [Store σ] in
/-- Counting an instruction changes the meter only, apart from the log. -/
theorem exists_count_eq (executor : Executor σ) (instruction : Instruction) (height : Nat) :
    ∃ logged : Executor σ, executor.SameRecord logged ∧
      executor.count instruction height =
        ((executor.meter.recordStep instruction).1,
          { logged with meter := (executor.meter.recordStep instruction).2 }) :=
  ⟨_, executor.sameRecord_log .., rfl⟩

/-- An announced instruction is counted, or its event is the one beyond the limit. -/
theorem Chronicles.settles_admission (chronicles : executor.Chronicles space limit before)
    {evaluation : Evaluation} (owned : evaluation.space = space) (instruction : Instruction) :
    Host.Settles (fun after => after.Chronicles space limit before)
      (fun _ after => after.Chronicled space limit before)
      (evaluation.admission host executor instruction) := by
  let event : Event := .step evaluation.space instruction evaluation.machine.stack
  have events := events_observe chronicles.listening event
  have recounts : Store.Recounts space (executor.journal.events.toList ++ [event]) before
      executor.store := by
    refine chronicles.recounts.snoc rfl ?_ (by simp [event])
    rw [← owned]
    rfl
  have steps : (executor.journal.events.toList ++ [event]).countP Event.isStep =
      executor.journal.events.toList.countP Event.isStep + 1 := by
    rw [List.countP_append, List.countP_singleton]
    rfl
  rcases (host.observe executor event).exists_count_eq instruction
    evaluation.machine.stack.size with ⟨logged, same, counted⟩
  rw [Evaluation.admission]
  change Host.Settles _ _ ((host.observe executor event).count instruction _)
  rw [counted]
  change Host.Settles _ _ ((executor.meter.recordStep instruction).1,
    { logged with meter := (executor.meter.recordStep instruction).2 })
  rw [same.events] at events
  rcases chronicles.counts.recordStep instruction with
    ⟨meter, recorded, counts⟩ | ⟨meter, recorded, full⟩
  · rw [recorded]
    refine ⟨?_, ?_, ?_⟩
    · exact same.listening.symm.trans (listening_observe chronicles.listening event)
    · simp only [events, ← same.store]
      exact recounts
    · simp only [events, steps]
      exact counts
  · rw [recorded]
    refine ⟨?_, ?_⟩
    · simp only [events, ← same.store]
      exact recounts
    · simp only [events, steps, Meter.exhausted_of_recordStep recorded, ↓reduceIte, full]

theorem Chronicles.of_admits (chronicles : executor.Chronicles space limit before)
    {evaluation : Evaluation} (owned : evaluation.space = space)
    (admits : evaluation.Admits host executor after) : after.Chronicles space limit before := by
  cases admits with
  | unasked nothing => exact chronicles
  | @permitted instruction _ inspected answer =>
      have settled := chronicles.settles_admission owned instruction
      rw [answer] at settled
      exact settled

/-- After every step the account is full, and it can be continued unless the run has ended. -/
theorem Chronicles.of_consults (steady : Store.Steady σ)
    (chronicles : executor.Chronicles space limit before) {evaluation next : Evaluation}
    {exit? : Option Exit} (owned : evaluation.space = space)
    (consults : evaluation.Consults host executor exit? next after) :
    after.Chronicled space limit before ∧
      (exit? = none → after.Chronicles space limit before) := by
  cases consults with
  | @denied instruction failure _ inspected answer =>
      have settled := chronicles.settles_admission owned instruction
      rw [answer] at settled
      exact ⟨settled, by simp⟩
  | alone admits stepped =>
      have admitted := chronicles.of_admits owned admits
      exact ⟨admitted.chronicled, fun _ => admitted⟩
  | exited admits stepped =>
      have admitted := chronicles.of_admits owned admits
      exact ⟨admitted.chronicled, fun _ => admitted⟩
  | resolved admits stepped resolves =>
      have answered := (chronicles.of_admits owned admits).of_resolves steady resolves owned
      exact ⟨answered.chronicled, fun _ => answered⟩
  | refused admits stepped resolves =>
      have answered := (chronicles.of_admits owned admits).of_resolves steady resolves owned
      exact ⟨answered.chronicled, fun _ => answered⟩

/-- A run leaves a full account, whatever it ends with. -/
theorem Chronicles.of_run (steady : Store.Steady σ)
    (chronicles : executor.Chronicles space limit before) {evaluation next : Evaluation}
    {exit : Exit} (running : evaluation.Running) (owned : evaluation.space = space)
    (ran : evaluation.run host executor = (exit, next, after)) :
    after.Chronicled space limit before := by
  refine Evaluation.run_induction
    (fun evaluation executor => evaluation.Running ∧ evaluation.space = space ∧
      executor.Chronicles space limit before)
    (fun _ _ executor => executor.Chronicled space limit before) ?_ ?_
    ⟨running, owned, chronicles⟩ ran
  · rintro evaluation next executor after ⟨running, owned, chronicles⟩ stepped
    have sameSpace := (Evaluation.advances_of_step running stepped).2.2
    have consulted := chronicles.of_consults steady owned
      (Evaluation.consults_of_step running stepped)
    exact ⟨Evaluation.running_of_step running stepped, sameSpace.trans owned, consulted.2 rfl⟩
  · rintro evaluation next executor after exit ⟨running, owned, chronicles⟩ stepped
    exact (chronicles.of_consults steady owned (Evaluation.consults_of_step running stepped)).1

theorem chronicled_execute (steady : Store.Steady σ) (store : σ) (limit : UInt64)
    (level? : Option Level) {evaluation : Evaluation} (running : evaluation.Running) :
    ((start store limit { level?, listening := true }).execute evaluation).2.2.Chronicled
      evaluation.space limit store := by
  rcases ran : evaluation.run host (start store limit { level?, listening := true }) with
    ⟨exit, next, after⟩
  have chronicled := (chronicles_start evaluation.space limit store level?).of_run steady running
    rfl ran
  have same := after.sameRecord_log .debug fun _ => epilogue next.space after.meter exit
  simp only [execute, ran]
  exact ⟨same.events ▸ same.store ▸ chronicled.recounts,
    same.events ▸ same.meter ▸ chronicled.steps⟩

/--
The events of a run are a faithful journal, whatever the program, whatever the
store and however the run ends. They all carry the space of the run. The writes
they tell of, made one after the other on the initial store, are all taken and
give exactly the store that is left; every word that was read is the one that the
writes before it leave at its key. An audit store has listed these writes and no
others. There is an event for every instruction that was counted, and one more for
the instruction that exhausted the meter.
-/
theorem events_are_a_faithful_journal (program : Program) (context : Context)
    (source outputs stackLimit : Nat) (layout : Layout) (space : Word) (limit : UInt64)
    (level? : Option Level) :
    let evaluation : Evaluation :=
      .start (.start program context source outputs stackLimit layout) space
    let journal : Journal := { level?, listening := true }
    (∀ store : SparseStore,
      ((start store limit journal).execute evaluation).2.2.Chronicled space limit store) ∧
    ∀ store : AuditStore,
      let ended := ((start store limit journal).execute evaluation).2.2
      ended.Chronicled space limit store ∧
        ended.store.writes.toList =
          store.writes.toList ++ ended.journal.events.toList.filterMap Event.write? := by
  intro evaluation journal
  have running : evaluation.Running := Evaluation.running_start ..
  constructor
  · intro store
    exact chronicled_execute SparseStore.steady store limit level? running
  · intro store ended
    have chronicled : ended.Chronicled space limit store :=
      chronicled_execute AuditStore.steady store limit level? running
    exact ⟨chronicled, AuditStore.writes_of_replay chronicled.recounts.writes⟩

-- A word is written and read back, and the sixth instruction exhausts the meter.
example :
    let program : Program := ⟨#[#[0x00, 0, 0x00, 1, 0x31, 0, 0x00, 0, 0x30, 0, 0x00, 0]], #[3, 8]⟩
    let evaluation : Evaluation := .start (.start program {} 0 2 2 .standard) 7
    let ended := ((start ({} : SparseStore) 5 { listening := true }).execute evaluation).2.2
    ended.journal.events.toList.map Event.isStep =
        [true, true, true, false, true, true, false, true] ∧
      ended.journal.events[3]? = some (.set 7 3 8) ∧
      ended.journal.events[6]? = some (.get 7 3 8) ∧
      ended.meter.used = 5 ∧ ended.meter.isExhausted = true := by
  cbv

end Executor

end StackCert
