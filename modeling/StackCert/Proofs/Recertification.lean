import Mathlib.Data.List.Basic
import StackCert.Expression
import StackCert.Proofs.Outline

/-!
# What a check depends on

A certifier answers any number of requests and keeps the summaries it has found
on the way, also those of a request that it then rejects. Every answer is still
the one of `Program.appraise`, which walks each source anew at each call. What
carries this from one request to the next is that all kept summaries are
outlines.

The limit on heights is looked at after each instruction of every source, in a
callee relative to the callee's own base, and not at all in a source without
instructions. A caller is at least as high as what it calls, so all these tests
together come to one test of each entry point's peak, and the peaks themselves do
not depend on the limit.
-/

namespace StackCert

namespace Certifier

open Program

variable {program : Program} {terms : Terms}

/-- The answers to requests that are made one after the other, and the certifier behind them. -/
def checks (certifier : Certifier) :
    List (List Nat) → List (Except Rejection (List Nat)) × Certifier
  | [] => ([], certifier)
  | outputs :: requests =>
      let checked := certifier.check outputs
      let rest := checked.2.checks requests
      (checked.1 :: rest.1, rest.2)

/-- Any number of requests are answered as if nothing were kept between them. -/
theorem checks_eq_map_appraise {certifier : Certifier} (faithful : certifier.Faithful)
    (requests : List (List Nat)) :
    ∃ known, certifier.checks requests =
        (requests.map (certifier.program.appraise certifier.terms), certifier.knowing known) ∧
      (certifier.knowing known).Faithful := by
  induction requests generalizing certifier with
  | nil => exact ⟨certifier.summaries, rfl, faithful⟩
  | cons outputs requests ih =>
      rcases check_eq_appraise faithful outputs with ⟨between, checked, faithfulBetween⟩
      rcases ih faithfulBetween with ⟨known, rest, faithful'⟩
      refine ⟨known, ?_, faithful'⟩
      simp only [checks, checked, rest, List.map_cons]
      rfl

/--
Keeping summaries is invisible. However many requests a certifier has answered or
rejected, each answer is the one of a fresh certifier, and of a walk that keeps
nothing: the same heights, or the same rejection. All that is kept are outlines,
so the next request, and its repetition, are answered in the same way.
-/
theorem kept_summaries_are_invisible (program : Program) (terms : Terms)
    (requests : List (List Nat)) :
    let fresh : Certifier := ⟨program, terms, []⟩
    let used := (fresh.checks requests).2
    (fresh.checks requests).1 = requests.map (fun outputs => (fresh.check outputs).1) ∧
    (∀ outputs, (fresh.check outputs).1 = program.appraise terms outputs) ∧
    (∀ source inputs summary, used.summaries.lookup (source, inputs) = some summary →
      program.outline terms source inputs = .ok summary) ∧
    ∀ outputs, (used.check outputs).1 = (fresh.check outputs).1 ∧
      ((used.check outputs).2.check outputs).1 = (used.check outputs).1 := by
  intro fresh used
  have plain (outputs : List Nat) : (fresh.check outputs).1 = program.appraise terms outputs := by
    rcases check_eq_appraise (faithful_fresh program terms) outputs with ⟨known, checked, _⟩
    rw [checked]
  rcases checks_eq_map_appraise (faithful_fresh program terms) requests with
    ⟨known, checked, faithful⟩
  have isUsed : used = fresh.knowing known := congrArg Prod.snd checked
  refine ⟨?_, plain, ?_, ?_⟩
  · rw [checked]
    exact List.map_congr_left fun outputs _ => (plain outputs).symm
  · rw [isUsed]
    exact faithful
  · intro outputs
    rcases check_eq_appraise faithful outputs with ⟨known', checkedNext, faithfulNext⟩
    rcases check_eq_appraise faithfulNext outputs with ⟨_, checkedAgain, _⟩
    rw [isUsed, checkedNext, checkedAgain, plain]
    exact ⟨rfl, rfl⟩

-- A rejected request leaves its summaries behind, and they serve the next one.
example :
    let program : Program := ⟨#[#[0x03, 0x11], #[0x00, 0]], #[5]⟩
    let rejected := Certifier.check ⟨program, {}, []⟩ [0]
    rejected.1 = .error ⟨0, 2, .stackMismatch 0 1⟩ ∧
      rejected.2.summaries = [((0, 0), ⟨1, 1⟩), ((1, 0), ⟨1, 1⟩)] ∧
      (rejected.2.check [1]).1 = .ok [1] := by
  decide +kernel

/-- A limit accepts what is accepted without one and does not exceed it. -/
theorem check_limited_iff {bounds : Bounds} {limit : Nat} {outputs heights : List Nat} :
    (Certifier.check ⟨program, ⟨bounds, some limit⟩, []⟩ outputs).1 = .ok heights ↔
      program.check bounds outputs = .ok heights ∧ ∀ height ∈ heights, height ≤ limit := by
  rw [Program.check, check_eq_ok_iff_balanced, check_eq_ok_iff_balanced]
  constructor
  · rintro ⟨length, limited⟩
    refine ⟨⟨length, ?_⟩, ?_⟩
    · intro source expected height expectedFound heightFound
      exact ⟨(limited source expected height expectedFound heightFound).1, rfl⟩
    · intro height member
      rcases List.mem_iff_getElem.mp member with ⟨source, inside, rfl⟩
      have within := (limited source _ _ (List.getElem?_eq_getElem (length ▸ inside))
        (List.getElem?_eq_getElem inside)).2
      exact Nat.not_lt.mp (of_decide_eq_false within)
  · rintro ⟨⟨length, balanced⟩, low⟩
    refine ⟨length, ?_⟩
    intro source expected height expectedFound heightFound
    refine ⟨(balanced source expected height expectedFound heightFound).1, ?_⟩
    exact decide_eq_false (Nat.not_lt.mpr (low height (List.mem_of_getElem? heightFound)))

/--
The limit on heights is a filter. A check with a limit accepts with certain heights
exactly if the check without one does and none of them exceeds the limit. So what a
limit accepts every higher one accepts, the heights do not depend on it, and a
deployed expression is nowhere higher than its settings allow.
-/
theorem stack_limit_filters_heights (program : Program) (bounds : Bounds) (outputs : List Nat) :
    let limited := fun limit =>
      ((Certifier.withStackLimit ⟨program, { bounds }, []⟩ limit).check outputs).1
    (∀ limit heights, limited limit = .ok heights ↔
      program.check bounds outputs = .ok heights ∧ ∀ height ∈ heights, height ≤ limit) ∧
    (∀ lower upper heights, lower ≤ upper → limited lower = .ok heights →
      limited upper = .ok heights) ∧
    (∀ left right heights heights', limited left = .ok heights → limited right = .ok heights' →
      heights = heights') ∧
    ∀ (settings : Settings) (expression : Expression),
      settings.deploy program bounds outputs = .ok expression →
      ∀ height ∈ expression.heights, height ≤ settings.stackLimit := by
  intro limited
  have filters (limit : Nat) (heights : List Nat) : limited limit = .ok heights ↔
      program.check bounds outputs = .ok heights ∧ ∀ height ∈ heights, height ≤ limit :=
    check_limited_iff
  refine ⟨filters, ?_, ?_, ?_⟩
  · intro lower upper heights order accepted
    rcases (filters lower heights).mp accepted with ⟨unlimited, low⟩
    apply (filters upper heights).mpr
    exact ⟨unlimited, fun height member => Nat.le_trans (low height member) order⟩
  · intro left right heights heights' accepted accepted'
    have unlimited := ((filters left heights).mp accepted).1
    have unlimited' := ((filters right heights').mp accepted').1
    exact Except.ok.inj (unlimited.symm.trans unlimited')
  · intro settings expression deployed
    rcases Settings.deploy_eq_ok_iff.mp deployed with ⟨heights, accepted, rfl⟩
    exact (check_limited_iff.mp accepted).2

/--
The second entry point calls the third source with a word of its own below the
callee's two. Three words are enough for both entry points and two are not,
although neither source has three words of its own at any time.
-/
theorem stack_limit_filters_heights_called :
    let program : Program :=
      ⟨#[#[0x00, 0], #[0x00, 0, 0x00, 0, 0x03, 0x52], #[0x00, 0, 0x10, 2]], #[5]⟩
    let limited := fun limit =>
      ((Certifier.withStackLimit ⟨program, {}, []⟩ limit).check [1, 2]).1
    program.check {} [1, 2] = .ok [1, 3] ∧ limited 3 = .ok [1, 3] ∧ limited 9 = .ok [1, 3] ∧
      ∀ heights, limited 2 ≠ .ok heights := by
  intro program limited
  have unlimited : program.check {} [1, 2] = .ok [1, 3] := by decide +kernel
  rcases stack_limit_filters_heights program {} [1, 2] with ⟨filters, monotone, _, _⟩
  have three : limited 3 = .ok [1, 3] := (filters 3 [1, 3]).mpr ⟨unlimited, by decide⟩
  refine ⟨unlimited, three, monotone 3 9 _ (by decide) three, ?_⟩
  intro heights accepted
  rcases (filters 2 heights).mp accepted with ⟨unlimited', low⟩
  cases unlimited.symm.trans unlimited'
  exact absurd (low 3 (by decide)) (by decide)

end Certifier

end StackCert
