import StackCert.Proofs.Reports
import StackCert.Proofs.StraightLine

/-!
# The claim of a holder

What a holder may claim for a tier is the time since the tier was reached or last claimed,
whichever came later, and nothing if either is yet to come. `Program.claimReport` computes
this for all tiers at once from a report, a report of the last claims and the time. It
sets all tiers of the constant report to the time, selects the later of the two times of
each tier if both have come, and takes the difference.

A tier for which none is selected holds the time never, the largest that fits into a
field. No time that fits is later, so the difference is zero there.
-/

namespace StackCert

/-- The claim for each tier, over the time and, in a second column, the two reports. -/
def Program.claimReport (never : Word) : Program where
  sources := #[.assemble
    [⟨Operation.constant.opcode, 0⟩,
     ⟨Operation.context.opcode, 0x00⟩,
     ⟨(Operation.reduce .updateTimes).opcode, 0x80⟩,
     ⟨Operation.context.opcode, 0x10⟩,
     ⟨Operation.context.opcode, 0x11⟩,
     ⟨Operation.context.opcode, 0x00⟩,
     ⟨(Operation.reduce .selectLte).opcode, 0x22⟩,
     ⟨(Operation.reduce .saturatingDiff).opcode, 0⟩]]
  constants := #[never]

/-- The later of two times is selected if both have come. -/
theorem Mode.Settles.eq_max_or_never {never reference first second selected : Nat}
    (settles : Mode.greatest.Settles never (Logic.every.qualified reference [first, second])
      selected) :
    selected = if first ≤ reference ∧ second ≤ reference then max first second else never := by
  simp only [Logic.qualified, List.forall_mem_cons, List.not_mem_nil, false_implies,
    implies_true, and_true] at settles
  split at settles
  · rename_i both
    rw [if_pos both]
    rcases settles.keeps (by simp) with ⟨member, latest⟩
    simp only [List.mem_cons, List.not_mem_nil, or_false, forall_eq_or_imp, forall_eq]
      at member latest
    omega
  · rename_i late
    rw [if_neg late]
    cases settles with
    | kept keeps => cases keeps.mem
    | missing => rfl

namespace Layout

variable {layout : Layout}

/-- The three steps have a result, which holds the claim for each tier. -/
theorem exists_claim (supported : layout.Supported) {time : Word}
    (fits : time.toNat < 2 ^ layout.fieldBits) (never report claim : Word) :
    ∃ now later result, layout.setTiers? never 0 tiers time = some now ∧
      layout.select? .every .greatest time [report, claim] = some later ∧
      layout.elapsed? now later = some result ∧
      ∀ tier, 1 ≤ tier → tier ≤ tiers → ∃ reachedAt claimedAt,
        layout.reached? report tier = some reachedAt ∧
        layout.reached? claim tier = some claimedAt ∧
        layout.reached? result tier = some (if reachedAt ≤ time.toNat ∧ claimedAt ≤ time.toNat
          then time.toNat - max reachedAt claimedAt else 0) := by
  rcases revises_setTiers supported never time 0 tiers with ⟨now, updated, revises⟩
  rcases exists_select supported .every .greatest time [report, claim] with
    ⟨later, selected, selects⟩
  refine ⟨now, later, _, updated, selected, elapsed?_eq supported now later, ?_⟩
  apply forall_tier
  intro index inside
  refine ⟨_, _, reached?_eq supported inside report, reached?_eq supported inside claim, ?_⟩
  have isNow : (layout.field now index).toNat = time.toNat := by
    have set := revises.set (index + 1) (by omega) inside (by omega)
    rw [reached?_eq supported inside, Nat.mod_eq_of_lt fits] at set
    exact Option.some.inj set
  have isLater := (selects.settles index inside).eq_max_or_never
  rw [reached?_eq supported inside, toNat_field_difference supported inside, isNow, isLater]
  split
  · rfl
  · congr 1
    omega

end Layout

namespace Program

/-- The program makes of its context what the three steps give. -/
theorem makes_claimReport {layout : Layout} {never time report claim now later result : Word}
    (updated : layout.setTiers? never 0 Layout.tiers time = some now)
    (selected : layout.select? .every .greatest time [report, claim] = some later)
    (subtracted : layout.elapsed? now later = some result) :
    (claimReport never).Makes ⟨[[time], [report, claim]]⟩ layout 0 0 [] 8 4 [result] := by
  let makes (position : Nat) (words : List Word) (count peak : Nat) : Prop :=
    (claimReport never).Makes ⟨[[time], [report, claim]]⟩ layout 0 position words count peak
      [result]
  have counted : Reducer.selectLte.arity 0x22 = .ok 3 := by decide
  -- from the end on, with the words in front of each instruction
  have finished : makes 16 [result] 0 1 := Makes.finish ⟨_, rfl, rfl⟩
  have differing : makes 14 [now, later] 1 2 :=
    Makes.run (.reduce .saturatingDiff) 0 [] [now, later] ⟨_, rfl, rfl⟩
      (.reduced rfl (congrArg (Reducer.valueOr .undefined) subtracted)) finished
  have selecting : makes 12 [now, report, claim, time] 2 4 :=
    Makes.run (.reduce .selectLte) 0x22 [now] [report, claim, time] ⟨_, rfl, rfl⟩
      (.reduced counted (congrArg (Reducer.valueOr .undefined) selected)) differing
  have third : makes 10 [now, report, claim] 3 4 :=
    Makes.run .context 0x00 [now, report, claim] [] ⟨_, rfl, rfl⟩ (.cell rfl) selecting
  have second : makes 8 [now, report] 4 4 :=
    Makes.run .context 0x11 [now, report] [] ⟨_, rfl, rfl⟩ (.cell rfl) third
  have first : makes 6 [now] 5 4 :=
    Makes.run .context 0x10 [now] [] ⟨_, rfl, rfl⟩ (.cell rfl) second
  have updating : makes 4 [never, time] 6 4 :=
    Makes.run (.reduce .updateTimes) 0x80 [] [never, time] ⟨_, rfl, rfl⟩
      (.reduced rfl (congrArg (Reducer.valueOr .undefined) updated)) first
  have timing : makes 2 [never] 7 4 :=
    Makes.run .context 0x00 [never] [] ⟨_, rfl, rfl⟩ (.cell rfl) updating
  exact Makes.run .constant 0 [] [] ⟨_, rfl, rfl⟩ (.constant rfl) timing

end Program

namespace Layout

/--
The claim program counts from the later report. With any layout of reports, it is deployed
with a stack of four words, and over a time that fits into a field and any two reports it
evaluates to a single word. That word holds for each tier the time since the later of its
two times if both have come, and zero otherwise.
-/
theorem claim_report_counts_from_later {settings : Settings} {fieldBits : Nat}
    {order : FieldOrder} (made : ofWidth? fieldBits order = some settings.layout)
    (room : 4 ≤ settings.stackLimit) (steps : 8 ≤ settings.stepLimit.toNat) {time : Word}
    (fits : time.toNat < 2 ^ fieldBits) (report claim : Word) :
    ∃ never expression result, settings.layout.never? = some never ∧
      settings.deploy (.claimReport never) ⟨[1, 2]⟩ [1] = .ok expression ∧
      expression.heights = [4] ∧
      (∀ {σ : Type} [Store σ] (space : Word) (store : σ) (journal : Journal),
        (settings.evaluate expression { context := ⟨[[time], [report, claim]]⟩, space } store
          journal).1 = .ok [result]) ∧
      ∀ tier, 1 ≤ tier → tier ≤ tiers → ∃ reachedAt claimedAt,
        settings.layout.reached? report tier = some reachedAt ∧
        settings.layout.reached? claim tier = some claimedAt ∧
        settings.layout.reached? result tier =
          some (if reachedAt ≤ time.toNat ∧ claimedAt ≤ time.toNat
            then time.toNat - max reachedAt claimedAt else 0) := by
  rcases width_of_ofWidth? made with ⟨rfl, supported⟩
  have isNever := never?_eq supported
  generalize Word.ones (tiers * settings.layout.fieldBits) = never at isNever
  rcases exists_claim supported fits never report claim with
    ⟨now, later, result, updated, selected, subtracted, claims⟩
  have makes := Program.makes_claimReport updated selected subtracted
  refine ⟨never, _, result, isNever, Settings.deploy_of_makes makes room, rfl, ?_, claims⟩
  intro σ _ space store journal
  exact Settings.evaluateWithLimit_of_makes makes steps space store journal

/--
Reports that count tiers from the highest field, with a stack and a number of steps that
just suffice. The first tier was claimed after it was reached, the second was reached after
it was claimed, the third is to be reached after the time given, and the others never.
-/
theorem claim_report_counts_from_later_narrow :
    let layout : Layout := ⟨16, .highestFirst⟩
    let settings : Settings := ⟨4, 8, layout⟩
    let report : Word := 0x0005_0006_000b_ffff_ffff_ffff_ffff_ffff
    let claim : Word := 0x0007_0002_0000_0000_0000_0000_0000_0000
    ofWidth? 16 .highestFirst = some layout ∧
      ∃ never expression result, layout.never? = some never ∧
        settings.deploy (.claimReport never) ⟨[1, 2]⟩ [1] = .ok expression ∧
        (settings.evaluate expression { context := ⟨[[10], [report, claim]]⟩ }
          ({} : SparseStore)).1 = .ok [result] ∧
        layout.reached? result 1 = some 3 ∧ layout.reached? result 2 = some 4 ∧
        layout.reached? result 3 = some 0 ∧ layout.reached? result 8 = some 0 := by
  intro layout settings report claim
  have made : ofWidth? 16 .highestFirst = some settings.layout := rfl
  rcases claim_report_counts_from_later made (by decide) (by decide)
    (show (10 : Word).toNat < 2 ^ 16 by decide) report claim with
    ⟨never, expression, result, isNever, deployed, _, evaluated, claims⟩
  have tier (number reachedAt claimedAt : Nat) (inside : 1 ≤ number ∧ number ≤ tiers)
      (reached : layout.reached? report number = some reachedAt)
      (claimed : layout.reached? claim number = some claimedAt) :
      layout.reached? result number =
        some (if reachedAt ≤ 10 ∧ claimedAt ≤ 10 then 10 - max reachedAt claimedAt else 0) := by
    rcases claims number inside.1 inside.2 with ⟨_, _, reached', claimed', isClaim⟩
    cases reached.symm.trans reached'
    cases claimed.symm.trans claimed'
    exact isClaim
  refine ⟨made, never, expression, result, isNever, deployed,
    evaluated 0 ({} : SparseStore) {}, ?_, ?_, ?_, ?_⟩
  · exact tier 1 5 7 (by decide) (by decide) (by decide)
  · exact tier 2 6 2 (by decide) (by decide) (by decide)
  · exact tier 3 11 0 (by decide) (by decide) (by decide)
  · exact tier 8 0xffff 0 (by decide) (by decide) (by decide)

end Layout

end StackCert
