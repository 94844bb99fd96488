import Mathlib.Data.List.Basic
import StackCert.Proofs.Outline

/-!
# Limits that are set between checks

The limit of a certifier may be set at any time, and the summaries found under earlier
limits are kept. A summary that is kept is not looked at again, so a limit that was
lowered binds only where a source is walked for the first time.

Whatever the limits were, every summary that is kept is the outline that the source has
without a limit. A walk under a limit therefore finds what it would find without one, or
ends early; and it finds everything within the limit, since the peak of a caller is not
below the peaks of the sources it calls. So an entry point is accepted if its height is
within the present limit or its summary has been kept, and in no other case.
-/

namespace StackCert

namespace Terms

/-- The terms without their limit on heights. -/
def lifted (terms : Terms) : Terms := { terms with stackLimit := none }

@[simp]
theorem bounds_lifted (terms : Terms) : terms.lifted.bounds = terms.bounds := rfl

@[simp]
theorem exceededBy_lifted (terms : Terms) (height : Nat) :
    terms.lifted.exceededBy height = false := rfl

theorem exceededBy_eq_false_iff {terms : Terms} {height : Nat} :
    terms.exceededBy height = false ↔ ∀ limit, terms.stackLimit = some limit → height ≤ limit := by
  unfold exceededBy
  cases terms.stackLimit with
  | none => simp
  | some limit => simp

end Terms

namespace Summary

theorem peak_le_apply (summary : Summary) (effect : Effect) :
    summary.peak ≤ (summary.apply effect).peak :=
  Nat.le_max_left _ _

theorem peak_le_around (summary : Summary) (inputs : Nat) (callee : Summary) :
    summary.peak ≤ (summary.around inputs callee).peak :=
  Nat.le_max_left _ _

theorem callee_le_around (summary : Summary) (inputs : Nat) (callee : Summary) :
    callee.peak ≤ (summary.around inputs callee).peak :=
  Nat.le_trans (Nat.le_add_left _ _) (Nat.le_max_right _ _)

end Summary

namespace Program

variable {program : Program} {terms : Terms} {source : Nat} {State : Type}

theorem peak_le_of_walkInstruction {position : Nat} {instruction : Instruction}
    {summary after : Summary}
    (walked : (walkInstruction program terms source position (program.outlines terms source)
      instruction summary ()).1 = .ok after) : summary.peak ≤ after.peak := by
  rcases operation_of_walkInstruction walked with ⟨operation, effect, assigned, described⟩
  by_cases isCall : operation = .call
  · subst isCall
    rcases (walkInstruction_call assigned rfl).mp walked with ⟨_, _, _, callee, _, _, rfl, _⟩
    exact Nat.le_trans (summary.peak_le_around _ callee) (Summary.peak_le_apply _ _)
  · rcases (walkInstruction_plain assigned isCall described).mp walked with ⟨_, _, rfl, _⟩
    exact summary.peak_le_apply effect

theorem peak_le_of_walk {instructions : List Instruction} {position : Nat}
    {summary after : Summary}
    (walked : (walk program terms source (program.outlines terms source) position instructions
      summary ()).1 = .ok after) : summary.peak ≤ after.peak := by
  induction instructions generalizing position summary with
  | nil =>
      simp only [walk, Except.ok.injEq] at walked
      exact Nat.le_of_eq (congrArg Summary.peak walked)
  | cons instruction instructions ih =>
      rcases walk_cons.mp walked with ⟨between, walkedFirst, walkedRest⟩
      exact Nat.le_trans (peak_le_of_walkInstruction walkedFirst) (ih walkedRest)

/--
What is found under a limit, with a state behind it, against what is found without one:
nothing else is found, and everything within the limit is. A property of the state is
kept.
-/
structure Covers (terms : Terms) (kept : State → Prop) (found : Except Rejection Summary × State)
    (free : Except Rejection Summary) : Prop where
  keeps : kept found.2
  sound : ∀ {summary}, found.1 = .ok summary → free = .ok summary
  complete : ∀ {summary}, free = .ok summary → terms.exceededBy summary.peak = false →
    found.1 = .ok summary

theorem Covers.of_error {kept : State → Prop} {state : State} (held : kept state)
    {rejection rejection' : Rejection} :
    Covers terms kept (.error rejection, state) (.error rejection') := by
  refine ⟨held, ?_, ?_⟩ <;> simp

section Walk

variable {callees : program.Callees source State} {kept : State → Prop}
  (covers : ∀ callee inputs later present state, kept state →
    Covers terms kept (callees callee inputs later present state)
      (program.outline terms.lifted callee inputs))
include covers

theorem walkCall_covers (position : Nat) (call : CallOperand) (summary : Summary) {state : State}
    (held : kept state) :
    Covers terms kept (walkCall program source position callees call summary state)
      (walkCall program source position (program.outlines terms.lifted source) call
        summary ()).1 := by
  simp only [walkCall]
  by_cases order : source < call.source ∧ call.source < program.sources.size
  · have answered := covers call.source call.inputs order.1 order.2 state held
    simp only [order, and_self, ↓reduceDIte, outlines]
    generalize callees call.source call.inputs order.1 order.2 state = answer at answered ⊢
    rcases answer with ⟨result, state'⟩
    cases result with
    | error rejection =>
        refine ⟨answered.keeps, by simp, ?_⟩
        intro after free within
        cases outlined : program.outline terms.lifted call.source call.inputs with
        | error rejection' => simp [outlined] at free
        | ok callee =>
            -- the peak of the caller is within the limit, and so is that of the callee
            simp only [outlined] at free
            split at free
            · cases free
              have calleeWithin := Terms.exceededBy_of_le
                (summary.callee_le_around call.inputs callee) within
              cases answered.complete outlined calleeWithin
            · cases free
    | ok callee =>
        rw [answered.sound rfl]
        dsimp only
        split
        · exact ⟨answered.keeps, id, fun same _ => same⟩
        · exact .of_error answered.keeps
  · simp only [order, ↓reduceDIte]
    exact .of_error held

theorem walkOperation_covers (bounds : Bounds) (position : Nat) (operation : Operation)
    (operand : UInt8) (summary : Summary) {state : State} (held : kept state) :
    Covers terms kept
      (walkOperation program bounds source position callees operation operand summary state)
      (walkOperation program bounds source position (program.outlines terms.lifted source) operation
        operand summary ()).1 := by
  by_cases isCall : operation = .call
  · subst isCall
    exact walkCall_covers covers position (CallOperand.ofByte operand) summary held
  · unfold walkOperation
    split
    · exact absurd rfl isCall
    · split
      · exact ⟨held, id, fun same _ => same⟩
      · exact .of_error held

theorem walkInstruction_covers (position : Nat) (instruction : Instruction) (summary : Summary)
    {state : State} (held : kept state) :
    Covers terms kept
      (walkInstruction program terms source position callees instruction summary state)
      (walkInstruction program terms.lifted source position (program.outlines terms.lifted source)
        instruction summary ()).1 := by
  simp only [walkInstruction]
  cases instruction.operation with
  | error failure => exact .of_error held
  | ok operation =>
      dsimp only
      cases operation.effect instruction.operand with
      | error failure => exact .of_error held
      | ok effect =>
          dsimp only
          split
          · exact .of_error held
          · have covered := walkOperation_covers covers terms.bounds position operation
              instruction.operand summary held
            simp only [Terms.bounds_lifted, Terms.exceededBy_lifted]
            generalize walkOperation program terms.bounds source position callees operation
              instruction.operand summary state = found at covered ⊢
            generalize walkOperation program terms.bounds source position
              (program.outlines terms.lifted source) operation instruction.operand summary () =
              free at covered ⊢
            rcases found with ⟨result, state'⟩
            rcases free with ⟨freeResult, _⟩
            cases result with
            | error rejection =>
                refine ⟨covered.keeps, by simp, ?_⟩
                intro after walked within
                cases freeResult with
                | error rejection' => cases walked
                | ok between =>
                    cases walked
                    have betweenWithin := Terms.exceededBy_of_le
                      (between.peak_le_apply effect) within
                    cases covered.complete rfl betweenWithin
            | ok between =>
                cases covered.sound rfl
                dsimp only
                split
                · rename_i exceeded
                  refine ⟨covered.keeps, by simp, ?_⟩
                  intro after same within
                  cases same
                  simp [within] at exceeded
                · exact ⟨covered.keeps, id, fun same _ => same⟩

theorem walk_covers (instructions : List Instruction) (position : Nat) (summary : Summary)
    {state : State} (held : kept state) :
    Covers terms kept (walk program terms source callees position instructions summary state)
      (walk program terms.lifted source (program.outlines terms.lifted source) position instructions
        summary ()).1 := by
  induction instructions generalizing position summary state with
  | nil => exact ⟨held, id, fun same _ => same⟩
  | cons instruction instructions ih =>
      have covered := walkInstruction_covers covers position instruction summary held
      rw [walk]
      rcases found : walkInstruction program terms source position callees instruction summary
        state with ⟨result, state'⟩
      rw [found] at covered
      cases result with
      | error rejection =>
          refine ⟨covered.keeps, by simp, ?_⟩
          intro after walked within
          rcases walk_cons.mp walked with ⟨between, walkedFirst, walkedRest⟩
          have betweenWithin := Terms.exceededBy_of_le (peak_le_of_walk walkedRest) within
          cases covered.complete walkedFirst betweenWithin
      | ok between =>
          have rest := ih (position + Instruction.width) between covered.keeps
          refine ⟨rest.keeps, ?_, ?_⟩
          · intro after walked
            exact walk_cons.mpr ⟨between, covered.sound rfl, rest.sound walked⟩
          · intro after walked within
            rcases walk_cons.mp walked with ⟨between', walkedFirst, walkedRest⟩
            cases (covered.sound rfl).symm.trans walkedFirst
            exact rest.complete walkedRest within

end Walk

/--
The summaries behind some that were there before. All of them are outlines, none was
lost, and those that were added are within the limit.
-/
structure Summaries.Grows (program : Program) (terms : Terms) (before after : Summaries) :
    Prop where
  faithful : after.Faithful program terms.lifted
  kept : ∀ {key summary}, before.lookup key = some summary → after.lookup key = some summary
  added : ∀ {source inputs summary}, after.lookup (source, inputs) = some summary →
    terms.exceededBy inputs = false →
    before.lookup (source, inputs) = some summary ∨ terms.exceededBy summary.peak = false

section Summarize

variable {before known : Summaries}

theorem Summaries.Grows.refl (faithful : known.Faithful program terms.lifted) :
    Summaries.Grows program terms known known :=
  ⟨faithful, id, fun found _ => Or.inl found⟩

theorem Summaries.Grows.cons {inputs : Nat} {summary : Summary}
    (grows : before.Grows program terms known)
    (outlined : program.outline terms.lifted source inputs = .ok summary)
    (within : terms.exceededBy inputs = false → terms.exceededBy summary.peak = false) :
    before.Grows program terms (((source, inputs), summary) :: known) := by
  refine ⟨grows.faithful.cons outlined, ?_, ?_⟩
  · intro key summary' found
    have kept := grows.kept found
    rw [List.lookup_cons]
    split
    · rename_i same
      cases eq_of_beq same
      cases outlined.symm.trans (grows.faithful _ _ _ kept)
      rfl
    · exact kept
  · intro source' inputs' summary' found started
    rw [List.lookup_cons] at found
    split at found
    · rename_i same
      cases eq_of_beq same
      cases found
      exact Or.inr (within started)
    · exact grows.added found started

theorem summarize_of_known {inputs : Nat} {summary : Summary}
    (found : known.lookup (source, inputs) = some summary) :
    program.summarize terms source inputs known = (.ok summary, known) := by
  rw [summarize, found]

/-- A summary that was found is kept. -/
theorem lookup_of_summarize {inputs : Nat} {summary : Summary} {known' : Summaries}
    (summarized : program.summarize terms source inputs known = (.ok summary, known')) :
    known'.lookup (source, inputs) = some summary := by
  rw [summarize] at summarized
  split at summarized
  · rename_i found
    cases summarized
    exact found
  · split at summarized
    · cases summarized
    · split at summarized
      · split at summarized
        · cases summarized
        · cases summarized
          exact List.lookup_cons_self
      · cases summarized

/-- Summarizing finds outlines, whatever the limits under which others were kept. -/
theorem summarize_covers (source inputs : Nat) {known : Summaries}
    (grows : before.Grows program terms known) :
    Covers terms (before.Grows program terms) (program.summarize terms source inputs known)
      (program.outline terms.lifted source inputs) := by
  -- Calls go forward, so the sources behind this one may be taken as settled.
  have later : ∀ callee inputs, source < callee → callee < program.sources.size → ∀ known,
      before.Grows program terms known →
      Covers terms (before.Grows program terms) (program.summarize terms callee inputs known)
        (program.outline terms.lifted callee inputs) :=
    fun callee inputs _ _ known grows => summarize_covers callee inputs grows
  cases found : known.lookup (source, inputs) with
  | some summary =>
      rw [summarize_of_known found, grows.faithful source inputs summary found]
      exact ⟨grows, id, fun same _ => same⟩
  | none =>
      rw [summarize, found]
      dsimp only
      split
      · rename_i missing
        rw [outline, missing]
        exact .of_error grows
      · rename_i code present
        split
        · rename_i aligned
          have covered := walk_covers later (Instruction.listOfBytes code.toList) 0
            ⟨inputs, inputs⟩ grows
          rw [← outline_of_aligned present aligned inputs] at covered
          split
          · rename_i rejection known' walked
            rw [walked] at covered
            exact ⟨covered.keeps, by simp, covered.complete⟩
          · rename_i summary known' walked
            rw [walked] at covered
            have outlined := covered.sound rfl
            refine ⟨covered.keeps.cons outlined ?_, covered.sound, covered.complete⟩
            intro started
            refine within_of_walk ?_ (congrArg Prod.fst walked)
            exact started
        · rename_i misaligned
          rw [outline, present]
          simp only [misaligned, Bool.false_eq_true, ↓reduceIte]
          exact .of_error grows
termination_by program.sources.size - source

/-- Every height is within the limit, or it has been kept for its entry point. -/
def Summaries.Spares (known : Summaries) (terms : Terms) (source : Nat) (heights : List Nat) :
    Prop :=
  ∀ index height, heights[index]? = some height →
    terms.exceededBy height = false ∨
      ∃ outputs, known.lookup (source + index, 0) = some ⟨outputs, height⟩

theorem Summaries.spares_cons {height : Nat} {heights : List Nat} :
    known.Spares terms source (height :: heights) ↔
      (terms.exceededBy height = false ∨
        ∃ outputs, known.lookup (source, 0) = some ⟨outputs, height⟩) ∧
        known.Spares terms (source + 1) heights := by
  constructor
  · intro spares
    refine ⟨spares 0 height rfl, ?_⟩
    intro index height' found
    rw [Nat.add_assoc, Nat.add_comm 1]
    exact spares (index + 1) height' found
  · rintro ⟨first, rest⟩ index height' found
    cases index with
    | zero =>
        cases found
        exact first
    | succ index =>
        rw [Nat.add_comm index, ← Nat.add_assoc]
        exact rest index height' found

theorem checkEntries_grows (outputs : List Nat) (source : Nat)
    (grows : before.Grows program terms known) :
    before.Grows program terms (program.checkEntries terms source outputs known).2 := by
  induction outputs generalizing source known with
  | nil => exact grows
  | cons expected outputs ih =>
      have covered := summarize_covers source 0 grows
      rw [checkEntries]
      split
      · rename_i summarized
        rw [summarized] at covered
        exact covered.keeps
      · rename_i summarized
        rw [summarized] at covered
        have rest := ih (source + 1) covered.keeps
        split
        · split
          · rename_i checked
            rw [checked] at rest
            exact rest
          · rename_i checked
            rw [checked] at rest
            exact rest
        · exact covered.keeps

theorem checkEntries_of_summarize {expected height : Nat} {known' : Summaries}
    (summarized : program.summarize terms source 0 known = (.ok ⟨expected, height⟩, known'))
    (outputs : List Nat) :
    program.checkEntries terms source (expected :: outputs) known =
      ((program.checkEntries terms (source + 1) outputs known').1.map (height :: ·),
        (program.checkEntries terms (source + 1) outputs known').2) := by
  rw [checkEntries, summarized]
  simp only [↓reduceIte]
  rcases program.checkEntries terms (source + 1) outputs known' with ⟨result, known''⟩
  cases result with
  | error rejection => rfl
  | ok rest => rfl

theorem checkEntries_cons {expected : Nat} {outputs heights : List Nat} :
    (program.checkEntries terms source (expected :: outputs) known).1 = .ok heights ↔
      ∃ height rest known', heights = height :: rest ∧
        program.summarize terms source 0 known = (.ok ⟨expected, height⟩, known') ∧
        (program.checkEntries terms (source + 1) outputs known').1 = .ok rest := by
  constructor
  · intro accepted
    rcases summarized : program.summarize terms source 0 known with ⟨result, known'⟩
    cases result with
    | error rejection => simp [checkEntries, summarized] at accepted
    | ok summary =>
        rcases summary with ⟨height, peak⟩
        by_cases agrees : height = expected
        · subst agrees
          rw [checkEntries_of_summarize summarized] at accepted
          cases checked : (program.checkEntries terms (source + 1) outputs known').1 with
          | error rejection => simp [checked, Except.map] at accepted
          | ok rest =>
              rw [checked] at accepted
              cases accepted
              exact ⟨peak, rest, known', rfl, rfl, checked⟩
        · simp [checkEntries, summarized, agrees] at accepted
  · rintro ⟨height, rest, known', rfl, summarized, restAccepted⟩
    rw [checkEntries_of_summarize summarized, restAccepted]
    rfl

/-- Entries are accepted if they are without a limit and the limit spares them. -/
theorem checkEntries_eq_ok_iff {outputs heights : List Nat}
    (grows : before.Grows program terms known) :
    (program.checkEntries terms source outputs known).1 = .ok heights ↔
      program.outlineEntries terms.lifted source outputs = .ok heights ∧
        before.Spares terms source heights := by
  induction outputs generalizing source known heights with
  | nil =>
      simp only [checkEntries, outlineEntries]
      constructor
      · intro accepted
        cases accepted
        exact ⟨rfl, fun index height found => absurd found (by simp)⟩
      · exact And.left
  | cons expected outputs ih =>
      have covered := summarize_covers source 0 grows
      rw [checkEntries_cons, outlineEntries_cons]
      constructor
      · rintro ⟨height, rest, known', rfl, summarized, accepted⟩
        rw [summarized] at covered
        rcases (ih covered.keeps).mp accepted with ⟨outlined, spares⟩
        refine ⟨⟨height, rest, rfl, covered.sound rfl, outlined⟩, ?_⟩
        refine Summaries.spares_cons.mpr ⟨?_, spares⟩
        rcases covered.keeps.added (lookup_of_summarize summarized) terms.exceededBy_zero with
          kept | within
        · exact Or.inr ⟨expected, kept⟩
        · exact Or.inl within
      · rintro ⟨⟨height, rest, rfl, outlined, restOutlined⟩, spares⟩
        rcases Summaries.spares_cons.mp spares with ⟨first, restSpares⟩
        have summarized : (program.summarize terms source 0 known).1 = .ok ⟨expected, height⟩ := by
          rcases first with within | ⟨_, kept⟩
          · exact covered.complete outlined within
          · have isKept := grows.kept kept
            cases outlined.symm.trans (grows.faithful _ _ _ isKept)
            rw [summarize_of_known isKept]
        refine ⟨height, rest, _, rfl, Prod.ext summarized rfl, ?_⟩
        exact (ih covered.keeps).mpr ⟨restOutlined, restSpares⟩

/-- The summaries of accepted entries are kept. -/
theorem lookup_of_checkEntries {outputs heights : List Nat}
    (grows : before.Grows program terms known)
    (accepted : (program.checkEntries terms source outputs known).1 = .ok heights)
    {index height : Nat} (found : heights[index]? = some height) :
    ∃ expected, (program.checkEntries terms source outputs known).2.lookup (source + index, 0) =
      some ⟨expected, height⟩ := by
  induction outputs generalizing source known heights index with
  | nil =>
      simp only [checkEntries] at accepted
      cases accepted
      simp at found
  | cons expected outputs ih =>
      rcases checkEntries_cons.mp accepted with
        ⟨first, rest, known', rfl, summarized, restAccepted⟩
      have covered := summarize_covers source 0 grows
      rw [summarized] at covered
      rw [checkEntries_of_summarize summarized]
      cases index with
      | zero =>
          have later := checkEntries_grows outputs (source + 1) (.refl covered.keeps.faithful)
          cases found
          exact ⟨expected, later.kept (lookup_of_summarize summarized)⟩
      | succ index =>
          rw [Nat.add_comm index, ← Nat.add_assoc]
          exact ih covered.keeps restAccepted found

end Summarize

end Program

namespace Certifier

open Program

/-- What can be asked of a certifier. -/
inductive Call where
  /-- Set the limit on heights. -/
  | limit (height : Nat)
  /-- Check the leading sources. -/
  | check (outputs : List Nat)
deriving DecidableEq, Repr

/-- The certifier behind a call. -/
def call (certifier : Certifier) : Call → Certifier
  | .limit height => certifier.withStackLimit height
  | .check outputs => (certifier.check outputs).2

/-- The certifier behind calls that are made one after the other. -/
def after (certifier : Certifier) (calls : List Call) : Certifier := calls.foldl call certifier

/-- The limit that was set last, or the one at the beginning if none was. -/
def latestLimit : Option Nat → List Call → Option Nat
  | limit, [] => limit
  | _, .limit height :: calls => latestLimit (some height) calls
  | limit, .check _ :: calls => latestLimit limit calls

/-- The limits under which the checks were made, with the one at the beginning. -/
def limitsOfChecks : Option Nat → List Call → List (Option Nat)
  | _, [] => []
  | _, .limit height :: calls => limitsOfChecks (some height) calls
  | limit, .check _ :: calls => limit :: limitsOfChecks limit calls

/-- Every summary that is kept is the outline that its source has without a limit. -/
def Grounded (certifier : Certifier) : Prop :=
  certifier.summaries.Faithful certifier.program certifier.terms.lifted

variable {certifier before between behind : Certifier} {outputs heights : List Nat}
  {limits limits' : List (Option Nat)}

theorem check_snd (certifier : Certifier) (outputs : List Nat) :
    ∃ known, (certifier.check outputs).2 = certifier.knowing known := by
  unfold check
  split
  · exact ⟨certifier.summaries, rfl⟩
  · exact ⟨_, rfl⟩

theorem Grounded.grows (grounded : certifier.Grounded) (outputs : List Nat) :
    certifier.summaries.Grows certifier.program certifier.terms
      (certifier.check outputs).2.summaries := by
  unfold check
  split
  · exact .refl grounded
  · exact checkEntries_grows outputs 0 (.refl grounded)

/-- A check accepts what is accepted without a limit and spared by the limit. -/
theorem Grounded.check_eq_ok_iff (grounded : certifier.Grounded) :
    (certifier.check outputs).1 = .ok heights ↔
      certifier.program.check certifier.terms.bounds outputs = .ok heights ∧
        certifier.summaries.Spares certifier.terms 0 heights := by
  rw [Program.check, Certifier.check_eq_ok_iff, and_assoc]
  unfold check
  split
  · rename_i tooMany
    simp [Nat.not_le.mpr tooMany]
  · rename_i few
    simp only [Nat.not_lt.mp few, true_and]
    exact checkEntries_eq_ok_iff (.refl grounded)

/-- The summaries of accepted entry points are kept. -/
theorem Grounded.lookup_of_check (grounded : certifier.Grounded)
    (accepted : (certifier.check outputs).1 = .ok heights) {source height : Nat}
    (found : heights[source]? = some height) :
    ∃ expected, (certifier.check outputs).2.summaries.lookup (source, 0) =
      some ⟨expected, height⟩ := by
  unfold check at accepted ⊢
  split at accepted
  · cases accepted
  · rename_i few
    rw [if_neg few]
    have kept := lookup_of_checkEntries (.refl grounded) accepted found
    rw [Nat.zero_add] at kept
    exact kept

/--
The certifier behind some calls, with the limits of the checks among them. Nothing that
was kept is lost, and what has been added was found under one of these limits.
-/
structure Follows (before : Certifier) (limits : List (Option Nat)) (behind : Certifier) :
    Prop where
  program : behind.program = before.program
  bounds : behind.terms.bounds = before.terms.bounds
  grounded : behind.Grounded
  kept : ∀ {key summary}, before.summaries.lookup key = some summary →
    behind.summaries.lookup key = some summary
  added : ∀ {source summary}, behind.summaries.lookup (source, 0) = some summary →
    before.summaries.lookup (source, 0) = some summary ∨
      ∃ limit ∈ limits, Terms.exceededBy ⟨before.terms.bounds, limit⟩ summary.peak = false

theorem Follows.trans (first : before.Follows limits between)
    (second : between.Follows limits' behind) : before.Follows (limits ++ limits') behind := by
  refine ⟨second.program.trans first.program, second.bounds.trans first.bounds, second.grounded,
    fun found => second.kept (first.kept found), ?_⟩
  intro source summary found
  rcases second.added found with earlier | ⟨limit, member, within⟩
  · rcases first.added earlier with earliest | ⟨limit, member, within⟩
    · exact Or.inl earliest
    · exact Or.inr ⟨limit, List.mem_append_left _ member, within⟩
  · rw [first.bounds] at within
    exact Or.inr ⟨limit, List.mem_append_right _ member, within⟩

theorem Grounded.follows_limit (grounded : before.Grounded) (height : Nat) :
    before.Follows [] (before.withStackLimit height) :=
  ⟨rfl, rfl, grounded, id, Or.inl⟩

theorem Grounded.follows_check (grounded : before.Grounded) (outputs : List Nat) :
    before.Follows [before.terms.stackLimit] (before.check outputs).2 := by
  have grows := grounded.grows outputs
  rcases before.check_snd outputs with ⟨known, behind⟩
  rw [behind] at grows ⊢
  refine ⟨rfl, rfl, grows.faithful, grows.kept, ?_⟩
  intro source summary found
  rcases grows.added found before.terms.exceededBy_zero with earlier | within
  · exact Or.inl earlier
  · exact Or.inr ⟨_, List.mem_singleton_self _, within⟩

/-- What holds behind one call holds behind any number of them. -/
theorem Grounded.follows_after (grounded : before.Grounded) (calls : List Call) :
    before.Follows (limitsOfChecks before.terms.stackLimit calls) (before.after calls) ∧
      (before.after calls).terms.stackLimit = latestLimit before.terms.stackLimit calls := by
  induction calls generalizing before with
  | nil => exact ⟨⟨rfl, rfl, grounded, id, Or.inl⟩, rfl⟩
  | cons call calls ih =>
      cases call with
      | limit height =>
          have first := grounded.follows_limit height
          rcases ih first.grounded with ⟨rest, latest⟩
          exact ⟨first.trans rest, latest⟩
      | check outputs =>
          have first := grounded.follows_check outputs
          rcases ih first.grounded with ⟨rest, latest⟩
          have sameLimit : (before.check outputs).2.terms = before.terms := by
            rcases before.check_snd outputs with ⟨known, behind⟩
            rw [behind]
            rfl
          rw [sameLimit] at rest latest
          exact ⟨first.trans rest, latest⟩

/-- What was accepted is accepted again, whatever limits are set in between. -/
theorem Grounded.check_again (grounded : certifier.Grounded)
    (accepted : (certifier.check outputs).1 = .ok heights) (calls : List Call) :
    (((certifier.check outputs).2.after calls).check outputs).1 = .ok heights := by
  have first := grounded.follows_check outputs
  have later := (first.grounded.follows_after calls).1
  apply later.grounded.check_eq_ok_iff.mpr
  rw [later.program, later.bounds, first.program, first.bounds]
  refine ⟨(grounded.check_eq_ok_iff.mp accepted).1, ?_⟩
  intro source height found
  rcases grounded.lookup_of_check accepted found with ⟨expected, kept⟩
  rw [Nat.zero_add]
  exact Or.inr ⟨expected, later.kept kept⟩

/--
A limit binds where it is looked at. Behind any calls of a fresh certifier, a check accepts
with certain heights exactly if it does without a limit and each height is within the limit
that was set last or has been kept for its entry point; and a height that has been kept was
within the limit of an earlier check. So the limit that was set last binds if all earlier
checks were made under limits that are not higher. Once it is lowered it does not bind: a
request that was accepted is accepted again with the same heights, whatever limits have been
set since.
-/
theorem lowered_limit_spares_kept_entries (program : Program) (bounds : Bounds)
    (calls : List Call) :
    let certifier := after ⟨program, { bounds }, []⟩ calls
    let latest := latestLimit none calls
    let earlier := limitsOfChecks none calls
    (∀ outputs heights, (certifier.check outputs).1 = .ok heights ↔
      program.check bounds outputs = .ok heights ∧
        ∀ source height, heights[source]? = some height →
          (∀ limit, latest = some limit → height ≤ limit) ∨
            ∃ expected, certifier.summaries.lookup (source, 0) = some ⟨expected, height⟩) ∧
    (∀ source expected height, certifier.summaries.lookup (source, 0) = some ⟨expected, height⟩ →
      ∃ passed ∈ earlier, ∀ limit, passed = some limit → height ≤ limit) ∧
    (∀ limit, latest = some limit → (∀ passed ∈ earlier, ∃ lower ≤ limit, passed = some lower) →
      ∀ outputs heights, (certifier.check outputs).1 = .ok heights →
        ∀ height ∈ heights, height ≤ limit) ∧
    ∀ outputs heights later, (certifier.check outputs).1 = .ok heights →
      (((certifier.check outputs).2.after later).check outputs).1 = .ok heights := by
  intro certifier latest earlier
  have fresh : Grounded ⟨program, { bounds }, []⟩ := Summaries.faithful_nil
  rcases fresh.follows_after calls with ⟨follows, isLatest⟩
  have accepts (outputs heights : List Nat) : (certifier.check outputs).1 = .ok heights ↔
      program.check bounds outputs = .ok heights ∧
        ∀ source height, heights[source]? = some height →
          (∀ limit, latest = some limit → height ≤ limit) ∨
            ∃ expected, certifier.summaries.lookup (source, 0) = some ⟨expected, height⟩ := by
    have spared : (certifier.check outputs).1 = .ok heights ↔ _ :=
      follows.grounded.check_eq_ok_iff
    rw [follows.program, follows.bounds] at spared
    simp only [Summaries.Spares, Nat.zero_add, Terms.exceededBy_eq_false_iff, isLatest] at spared
    exact spared
  have passed (source expected height : Nat)
      (kept : certifier.summaries.lookup (source, 0) = some ⟨expected, height⟩) :
      ∃ passed ∈ earlier, ∀ limit, passed = some limit → height ≤ limit := by
    rcases follows.added kept with impossible | ⟨limit, member, within⟩
    · cases impossible
    · exact ⟨limit, member, Terms.exceededBy_eq_false_iff.mp within⟩
  refine ⟨accepts, passed, ?_, ?_⟩
  · intro limit isLimit notHigher outputs heights accepted height member
    rcases List.mem_iff_getElem?.mp member with ⟨source, found⟩
    rcases ((accepts outputs heights).mp accepted).2 source height found with
      within | ⟨expected, kept⟩
    · exact within limit isLimit
    · rcases passed source expected height kept with ⟨earlierLimit, inEarlier, within⟩
      rcases notHigher earlierLimit inEarlier with ⟨lower, below, isLower⟩
      exact Nat.le_trans (within lower isLower) below
  · intro outputs heights later accepted
    exact follows.grounded.check_again accepted later

/-- Under a limit that was raised all heights are within it, and the same request passes. -/
theorem lowered_limit_spares_kept_entries_raised :
    let program : Program := ⟨#[#[0x00, 0, 0x00, 0]], #[5]⟩
    let calls : List Call := [.limit 2, .check [2], .limit 3]
    let certifier := after ⟨program, {}, []⟩ calls
    latestLimit none calls = some 3 ∧ limitsOfChecks none calls = [some 2] ∧
      (certifier.check [2]).1 = .ok [2] ∧
      ∀ outputs heights, (certifier.check outputs).1 = .ok heights →
        ∀ height ∈ heights, height ≤ 3 := by
  intro program calls certifier
  rcases lowered_limit_spares_kept_entries program {} calls with ⟨accepts, _, binds, _⟩
  have unlimited : program.check {} [2] = .ok [2] := by decide +kernel
  refine ⟨rfl, rfl, (accepts [2] [2]).mpr ⟨unlimited, ?_⟩, binds 3 rfl ?_⟩
  · intro source height found
    refine Or.inl ?_
    intro limit isLimit
    cases isLimit
    cases List.mem_singleton.mp (List.mem_of_getElem? found)
    decide
  · intro passed member
    cases List.mem_singleton.mp member
    exact ⟨2, by decide, rfl⟩

/--
A source that pushes two words is accepted without a limit. With a limit of one word, set
afterwards, it is accepted again, although a fresh certifier rejects it.
-/
theorem lowered_limit_is_passed_over :
    let program : Program := ⟨#[#[0x00, 0, 0x00, 0]], #[5]⟩
    let calls : List Call := [.check [2], .limit 1]
    latestLimit none calls = some 1 ∧
      ((after ⟨program, {}, []⟩ calls).check [2]).1 = .ok [2] ∧ ¬(∀ height ∈ [2], height ≤ 1) ∧
      ((after ⟨program, {}, []⟩ [.limit 1]).check [2]).1 = .error ⟨0, 2, .stackOverflow⟩ := by
  decide +kernel

end Certifier

end StackCert
