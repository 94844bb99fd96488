import StackCert.Proofs.Fields
import StackCert.Proofs.Saturation

/-!
# Comparing and selecting reports

Both the difference of two reports and a selection among several are made tier by tier,
and the fields of the result show what was made of each tier.

A selection first lets the times of a tier qualify, all together or each by itself
(`Logic.qualified`), and then keeps one of them (`Mode.Keeps`). Which one it is depends on
the order of the reports only if the first is kept. Reports may also be selected in parts
and the results selected once more, because a time selected from a part stands for the
part (`Settles.replace`). A part without a selected time is the delicate case. Its field
says never, which is itself a time and could qualify; but then all times in the part are
no later and would have qualified too.
-/

namespace StackCert

namespace Layout

variable {layout : Layout}

theorem fill_congr (layout : Layout) (report : Word) {times times' : Nat → Word}
    {indices : List Nat} (same : ∀ index ∈ indices, times index = times' index) :
    layout.fill report times indices = layout.fill report times' indices := by
  apply List.foldl_ext
  intro report index member
  rw [same index member]

theorem toNat_field_difference (supported : layout.Supported) {index : Nat}
    (inside : index < tiers) (newer older : Word) :
    (layout.field (layout.fill 0
      (fun index => (layout.field newer index).saturatingSub (layout.field older index))
      (List.range tiers)) index).toNat =
      (layout.field newer index).toNat - (layout.field older index).toNat := by
  have bound := toNat_field_lt supported newer index
  rw [field_fill_range supported inside, Word.toNat_and_ones supported.fieldBits_le,
    Word.toNat_saturatingSub, Nat.mod_eq_of_lt (by omega)]

/--
The difference of two reports holds for each tier how much later it was reached in the
newer report, or zero. No bit is set above the fields, and the bits there make no difference.
-/
theorem elapsed_is_truncated_difference {fieldBits : Nat} {order : FieldOrder} {layout : Layout}
    (made : ofWidth? fieldBits order = some layout) (newer older : Word) :
    ∃ difference, layout.elapsed? newer older = some difference ∧
      (∀ tier, 1 ≤ tier → tier ≤ tiers → ∃ newerTime olderTime,
        layout.reached? newer tier = some newerTime ∧
        layout.reached? older tier = some olderTime ∧
        layout.reached? difference tier = some (max 0 ((newerTime : Int) - olderTime)).toNat) ∧
      (∀ bit, tiers * fieldBits ≤ bit → difference.getLsbD bit = false) ∧
      ∀ newer' older' : Word,
        (∀ tier, 1 ≤ tier → tier ≤ tiers →
          layout.time? newer' tier = layout.time? newer tier ∧
          layout.time? older' tier = layout.time? older tier) →
        layout.elapsed? newer' older' = some difference := by
  rcases width_of_ofWidth? made with ⟨rfl, supported⟩
  refine ⟨_, elapsed?_eq supported newer older, ?_, ?_, ?_⟩
  · apply forall_tier
    intro index inside
    refine ⟨_, _, reached?_eq supported inside newer, reached?_eq supported inside older, ?_⟩
    rw [reached?_eq supported inside, toNat_field_difference supported inside]
    congr 1
    omega
  · intro bit above
    exact getLsbD_fill_range supported _ above
  · intro newer' older' same
    rw [elapsed?_eq supported]
    congr 1
    apply fill_congr
    intro index member
    have inside := List.mem_range.mp member
    have fields := same (index + 1) (Nat.succ_pos index) inside
    simp only [time?_eq supported inside, Option.some.injEq] at fields
    rw [fields.1, fields.2]

/-- Nothing is borrowed from the next field, and bits above the fields make no difference. -/
theorem elapsed_is_truncated_difference_narrow :
    let layout : Layout := ⟨16, .highestFirst⟩
    ∃ difference, layout.elapsed? (.ofNat 256 (2 ^ 200 + 0x50003)) 0x20004 = some difference ∧
      layout.reached? difference 8 = some 0 ∧ layout.reached? difference 7 = some 3 ∧
      difference.getLsbD 200 = false ∧ layout.elapsed? 0x50003 0x20004 = some difference := by
  intro layout
  have made : ofWidth? 16 .highestFirst = some layout := rfl
  rcases elapsed_is_truncated_difference made (.ofNat 256 (2 ^ 200 + 0x50003)) 0x20004 with
    ⟨difference, found, times, above, fields⟩
  rcases times 8 (by decide) (by decide) with ⟨newer, older, isNewer, isOlder, reached⟩
  rcases times 7 (by decide) (by decide) with ⟨newer', older', isNewer', isOlder', reached'⟩
  cases isNewer.symm.trans (show _ = some 3 by decide)
  cases isOlder.symm.trans (show _ = some 4 by decide)
  cases isNewer'.symm.trans (show _ = some 5 by decide)
  cases isOlder'.symm.trans (show _ = some 2 by decide)
  refine ⟨difference, found, reached, reached', above 200 (by decide), fields _ _ ?_⟩
  apply forall_tier
  decide

end Layout

namespace Mode

/-- A time that is one of several and stands in a relation to each of them. -/
def Leads (relation : Nat → Nat → Prop) (times : List Nat) (leader : Nat) : Prop :=
  leader ∈ times ∧ ∀ time ∈ times, relation leader time

/-- The time that a mode keeps of several. -/
def Keeps : Mode → List Nat → Nat → Prop
  | .least, times, kept => Leads (· ≤ ·) times kept
  | .greatest, times, kept => Leads (· ≥ ·) times kept
  | .first, times, kept => times.head? = some kept

/-- The time selected from those that qualify, which is never if there is none. -/
inductive Settles (mode : Mode) (never : Nat) : List Nat → Nat → Prop where
  | kept {qualified : List Nat} {selected : Nat} (keeps : mode.Keeps qualified selected) :
      Settles mode never qualified selected
  | missing : Settles mode never [] never

variable {mode : Mode} {times times' part after : List Nat}
  {kept kept' time never selected selected' : Nat}

section Keeps

theorem Leads.replace {relation : Nat → Nat → Prop} {before : List Nat}
    (trans : ∀ {left middle right}, relation left middle → relation middle right →
      relation left right)
    (partLeads : Leads relation part time)
    (leads : Leads relation (before ++ time :: after) kept) :
    Leads relation (before ++ (part ++ after)) kept := by
  rcases leads with ⟨member, related⟩
  simp only [List.mem_append, List.mem_cons] at member related
  simp only [Leads, List.mem_append]
  constructor
  · rcases member with inBefore | rfl | inAfter
    · exact Or.inl inBefore
    · exact Or.inr (Or.inl partLeads.1)
    · exact Or.inr (Or.inr inAfter)
  · intro other member
    rcases member with inBefore | inPart | inAfter
    · exact related other (Or.inl inBefore)
    · exact trans (related time (Or.inr (Or.inl rfl))) (partLeads.2 other inPart)
    · exact related other (Or.inr (Or.inr inAfter))

theorem Keeps.mem (keeps : mode.Keeps times kept) : kept ∈ times := by
  cases mode with
  | least | greatest => exact keeps.1
  | first => exact List.mem_of_head? keeps

theorem Keeps.unique (keeps : mode.Keeps times kept) (keeps' : mode.Keeps times kept') :
    kept = kept' := by
  cases mode with
  | least => exact Nat.le_antisymm (keeps.2 _ keeps'.1) (keeps'.2 _ keeps.1)
  | greatest => exact Nat.le_antisymm (keeps'.2 _ keeps.1) (keeps.2 _ keeps'.1)
  | first => exact Option.some.inj (keeps.symm.trans keeps')

theorem Keeps.perm (unordered : mode ≠ .first) (shuffle : times.Perm times')
    (keeps : mode.Keeps times kept) : mode.Keeps times' kept := by
  cases mode with
  | least | greatest =>
      refine ⟨shuffle.mem_iff.mp keeps.1, ?_⟩
      intro time member
      exact keeps.2 time (shuffle.mem_iff.mpr member)
  | first => exact absurd rfl unordered

theorem Keeps.replace (before : List Nat) (partKeeps : mode.Keeps part time)
    (keeps : mode.Keeps (before ++ time :: after) kept) :
    mode.Keeps (before ++ (part ++ after)) kept := by
  cases mode with
  | least => exact Leads.replace Nat.le_trans partKeeps keeps
  | greatest => exact Leads.replace (fun left right => Nat.le_trans right left) partKeeps keeps
  | first =>
      cases before with
      | nil =>
          cases keeps
          have head : part.head? = some kept := partKeeps
          simp [Keeps, head]
      | cons head before => exact keeps

theorem keeps_singleton (mode : Mode) (time : Nat) : mode.Keeps [time] time := by
  cases mode with
  | least | greatest => simp [Keeps, Leads]
  | first => rfl

theorem keeps_keep (mode : Mode) (current next : Word) :
    mode.Keeps [current.toNat, next.toNat] (mode.keep current next).toNat := by
  cases mode with
  | least =>
      simp only [Keeps, Leads, keep, Word.lesser, BitVec.le_def, List.mem_cons]
      split <;> simp <;> omega
  | greatest =>
      simp only [Keeps, Leads, keep, Word.greater, BitVec.le_def, List.mem_cons]
      split <;> simp <;> omega
  | first => rfl

theorem keeps_foldl (mode : Mode) (current : Word) (words : List Word) :
    mode.Keeps ((current :: words).map BitVec.toNat) (words.foldl mode.keep current).toNat := by
  -- the time kept so far stands for all those before it
  induction words generalizing current with
  | nil => exact mode.keeps_singleton _
  | cons next words ih => exact (mode.keeps_keep current next).replace [] (ih _)

end Keeps

section Settles

theorem settles_pick? (mode : Mode) (words : List Word) (never : Word) :
    mode.Settles never.toNat (words.map BitVec.toNat) ((mode.pick? words).getD never).toNat := by
  cases words with
  | nil => exact .missing
  | cons current words => exact .kept (mode.keeps_foldl current words)

theorem Settles.keeps (settles : mode.Settles never times selected) (nonempty : times ≠ []) :
    mode.Keeps times selected := by
  cases settles with
  | kept keeps => exact keeps
  | missing => exact absurd rfl nonempty

theorem Settles.unique (settles : mode.Settles never times selected)
    (settles' : mode.Settles never times selected') : selected = selected' := by
  cases settles with
  | kept keeps => exact keeps.unique (settles'.keeps (List.ne_nil_of_mem keeps.mem))
  | missing =>
      cases settles' with
      | kept keeps' => cases keeps'.mem
      | missing => rfl

theorem Settles.perm (unordered : mode ≠ .first) (shuffle : times.Perm times')
    (settles : mode.Settles never times selected) : mode.Settles never times' selected := by
  cases settles with
  | kept keeps => exact .kept (keeps.perm unordered shuffle)
  | missing =>
      cases shuffle.nil_eq
      exact .missing

theorem Settles.le (settles : mode.Settles never times selected)
    (bounded : ∀ time ∈ times, time ≤ never) : selected ≤ never := by
  cases settles with
  | kept keeps => exact bounded _ keeps.mem
  | missing => exact Nat.le_refl _

end Settles

end Mode

namespace Logic

/-- The times that qualify: either all of them together, or each one by itself. -/
def qualified (logic : Logic) (reference : Nat) (times : List Nat) : List Nat :=
  match logic with
  | .every => if ∀ time ∈ times, time ≤ reference then times else []
  | .any => times.filter (· ≤ reference)

variable {logic : Logic} {reference time : Nat} {times times' part : List Nat}

theorem qualified_perm (logic : Logic) (reference : Nat) (shuffle : times.Perm times') :
    (logic.qualified reference times).Perm (logic.qualified reference times') := by
  cases logic with
  | every =>
      simp only [qualified, shuffle.mem_iff]
      split
      · exact shuffle
      · exact List.Perm.refl _
  | any => exact shuffle.filter _

theorem mem_of_mem_qualified (member : time ∈ logic.qualified reference times) :
    time ∈ times ∧ time ≤ reference := by
  cases logic with
  | every =>
      simp only [qualified] at member
      split at member
      · rename_i early
        exact ⟨member, early time member⟩
      · cases member
  | any => simpa [qualified] using member

theorem exists_late (none : logic.qualified reference part = []) (nonempty : part ≠ []) :
    ∃ time ∈ part, reference < time := by
  by_contra! early
  apply nonempty
  cases logic with
  | every => rwa [qualified, if_pos early] at none
  | any => rwa [qualified, List.filter_eq_self.mpr (by simpa using early)] at none

/-- A part in which no time qualifies is as good as a single time that is late. -/
theorem qualified_of_late (none : logic.qualified reference part = []) (nonempty : part ≠ [])
    (late : reference < time) (before after : List Nat) :
    logic.qualified reference (before ++ time :: after) =
      logic.qualified reference (before ++ (part ++ after)) := by
  cases logic with
  | every =>
      rcases exists_late none nonempty with ⟨other, member, otherLate⟩
      rw [qualified, qualified, if_neg, if_neg]
      · intro early
        exact Nat.not_lt.mpr (early other (by simp [member])) otherLate
      · intro early
        exact Nat.not_lt.mpr (early time (by simp)) late
  | any =>
      simp only [qualified] at none ⊢
      simp [none, late]

/-- A time that qualifies in a part stands where the part would stand, if anything does. -/
theorem qualified_of_mem (member : time ∈ logic.qualified reference part)
    (before after : List Nat) :
    (logic.qualified reference (before ++ time :: after) = [] ∧
      logic.qualified reference (before ++ (part ++ after)) = []) ∨
    ∃ before' after',
      logic.qualified reference (before ++ time :: after) = before' ++ time :: after' ∧
      logic.qualified reference (before ++ (part ++ after)) =
        before' ++ (logic.qualified reference part ++ after') := by
  have early := (mem_of_mem_qualified member).2
  cases logic with
  | every =>
      have whole : ∀ other ∈ part, other ≤ reference := by
        by_contra late
        rw [qualified, if_neg late] at member
        cases member
      have same : (∀ other ∈ before ++ (part ++ after), other ≤ reference) ↔
          ∀ other ∈ before ++ time :: after, other ≤ reference := by
        simp only [List.forall_mem_append, List.forall_mem_cons]
        constructor
        · rintro ⟨inBefore, _, inAfter⟩
          exact ⟨inBefore, early, inAfter⟩
        · rintro ⟨inBefore, _, inAfter⟩
          exact ⟨inBefore, whole, inAfter⟩
      -- a late time outside the part leaves nothing, with the part or without it
      simp only [qualified, same, if_pos whole]
      split
      · exact Or.inr ⟨before, after, rfl, rfl⟩
      · exact Or.inl ⟨rfl, rfl⟩
  | any =>
      right
      refine ⟨before.filter (· ≤ reference), after.filter (· ≤ reference), ?_, ?_⟩
      · simp [qualified, early]
      · simp [qualified]

end Logic

/-- The same time is selected if a part of the times is replaced by the one selected from it. -/
theorem Mode.Settles.replace {mode : Mode} {logic : Logic} {part : List Nat}
    {reference time never selected : Nat} (before after : List Nat) (nonempty : part ≠ [])
    (bounded : ∀ time ∈ part, time ≤ never)
    (partSettles : mode.Settles never (logic.qualified reference part) time)
    (settles : mode.Settles never (logic.qualified reference (before ++ time :: after)) selected) :
    mode.Settles never (logic.qualified reference (before ++ (part ++ after))) selected := by
  generalize qualifies : logic.qualified reference part = qualified at partSettles
  cases partSettles with
  | missing =>
      -- never is no earlier than the late times it stands for, so it does not qualify either
      rcases Logic.exists_late qualifies nonempty with ⟨other, member, late⟩
      have neverLate := Nat.lt_of_lt_of_le late (bounded other member)
      rwa [Logic.qualified_of_late qualifies nonempty neverLate] at settles
  | kept keeps =>
      cases qualifies
      rcases Logic.qualified_of_mem keeps.mem before after with
        ⟨none, none'⟩ | ⟨before', after', some, some'⟩
      · rw [none] at settles
        rwa [none']
      · rw [some] at settles
        rw [some']
        exact .kept (keeps.replace before' (settles.keeps (by simp)))

namespace Layout

variable {layout : Layout} {logic : Logic} {mode : Mode} {reference : Word}

/-- The times in one field of several reports. -/
def times (layout : Layout) (reports : List Word) (index : Nat) : List Nat :=
  reports.map fun report => (layout.field report index).toNat

/-- A report holds in each field the time selected there, and nothing above the fields. -/
structure Selects (layout : Layout) (logic : Logic) (mode : Mode) (reference : Word)
    (reports : List Word) (result : Word) : Prop where
  settles : ∀ index < tiers, mode.Settles (2 ^ layout.fieldBits - 1)
    (logic.qualified reference.toNat (layout.times reports index))
    (layout.field result index).toNat
  above : ∀ bit, tiers * layout.fieldBits ≤ bit → result.getLsbD bit = false

theorem qualify?_eq_pick? (logic : Logic) (mode : Mode) (reference : Word) (words : List Word) :
    ∃ qualified, qualify? logic mode reference none words = mode.pick? qualified ∧
      qualified.map BitVec.toNat =
        logic.qualified reference.toNat (words.map BitVec.toNat) := by
  cases logic with
  | every =>
      by_cases early : ∀ word ∈ words, word ≤ reference
      · refine ⟨words, if_pos (by simpa using early), (if_pos ?_).symm⟩
        simpa [BitVec.le_def] using early
      · refine ⟨[], if_neg (by simpa using early), (if_neg ?_).symm⟩
        simpa [BitVec.le_def] using early
  | any =>
      refine ⟨words.filter (· ≤ reference), rfl, ?_⟩
      rw [Logic.qualified, List.filter_map]
      rfl

theorem settles_qualify? (logic : Logic) (mode : Mode) (reference : Word) (words : List Word)
    (never : Word) :
    mode.Settles never.toNat (logic.qualified reference.toNat (words.map BitVec.toNat))
      ((qualify? logic mode reference none words).getD never).toNat := by
  rcases qualify?_eq_pick? logic mode reference words with ⟨qualified, picks, numbers⟩
  rw [picks, ← numbers]
  exact mode.settles_pick? qualified never

theorem le_of_mem_times (supported : layout.Supported) {reports : List Word} {index time : Nat}
    (member : time ∈ layout.times reports index) : time ≤ 2 ^ layout.fieldBits - 1 := by
  rcases List.mem_map.mp member with ⟨report, _, rfl⟩
  exact Nat.le_sub_one_of_lt (toNat_field_lt supported report index)

theorem exists_select (supported : layout.Supported) (logic : Logic) (mode : Mode)
    (reference : Word) (reports : List Word) :
    ∃ result, layout.select? logic mode reference reports = some result ∧
      layout.Selects logic mode reference reports result := by
  refine ⟨_, select?_eq supported logic mode reference reports, ?_, ?_⟩
  · intro index inside
    have settles := settles_qualify? logic mode reference (reports.map (layout.field · index))
      (.ones layout.fieldBits)
    rw [Word.toNat_ones supported.fieldBits_le, List.map_map] at settles
    -- the time fits into the field, so nothing of it is cut off
    have bounded := settles.le fun time member =>
      le_of_mem_times supported (Logic.mem_of_mem_qualified member).1
    rw [field_fill_range supported inside, Word.toNat_and_ones supported.fieldBits_le,
      Nat.mod_eq_of_lt (Nat.lt_of_le_pred (Nat.two_pow_pos _) bounded)]
    exact settles
  · intro bit above
    exact getLsbD_fill_range supported _ above

theorem Selects.unique (supported : layout.Supported) {reports : List Word} {result result' : Word}
    (selects : layout.Selects logic mode reference reports result)
    (selects' : layout.Selects logic mode reference reports result') : result = result' := by
  apply eq_of_fields supported
  · intro index inside
    apply BitVec.eq_of_toNat_eq
    exact (selects.settles index inside).unique (selects'.settles index inside)
  · intro bit above
    rw [selects.above bit above, selects'.above bit above]

theorem select?_eq_some_iff (supported : layout.Supported) {reports : List Word} {result : Word} :
    layout.select? logic mode reference reports = some result ↔
      layout.Selects logic mode reference reports result := by
  rcases exists_select supported logic mode reference reports with ⟨found, selected, selects⟩
  rw [selected, Option.some.injEq]
  constructor
  · rintro rfl
    exact selects
  · exact selects.unique supported

theorem Selects.perm {reports reports' : List Word} {result : Word} (unordered : mode ≠ .first)
    (shuffle : reports.Perm reports')
    (selects : layout.Selects logic mode reference reports result) :
    layout.Selects logic mode reference reports' result where
  settles index inside :=
    (selects.settles index inside).perm unordered (logic.qualified_perm _ (shuffle.map _))
  above := selects.above

theorem Selects.replace (supported : layout.Supported) (before after : List Word)
    {part : List Word} {selected result : Word} (nonempty : part ≠ [])
    (partSelects : layout.Selects logic mode reference part selected)
    (selects : layout.Selects logic mode reference (before ++ selected :: after) result) :
    layout.Selects logic mode reference (before ++ (part ++ after)) result where
  settles index inside := by
    have settles := selects.settles index inside
    simp only [times, List.map_append, List.map_cons] at settles ⊢
    apply Mode.Settles.replace _ _ _ _ (partSelects.settles index inside) settles
    · simpa [times] using nonempty
    · intro time member
      exact le_of_mem_times supported member
  above := selects.above

theorem mapM_reached? (supported : layout.Supported) {index : Nat} (inside : index < tiers)
    (reports : List Word) :
    reports.mapM (layout.reached? · (index + 1)) = some (layout.times reports index) := by
  simp only [reached?_eq supported inside]
  exact List.mapM_pure

/--
A selection settles each tier by itself. Although the reports are visited one after
another and a visit may end early, the result is known from all the times of the tier.
With the logic `every` the times of the reports qualify if there are any and none is
after the reference, and with `any` those qualify that are not after it. The result holds
the least, the greatest or the first of the times that qualify, and all ones if there is
none. No bit is set above the fields. The order of the reports makes a difference only to
the first.
-/
theorem select_settles_each_tier {fieldBits : Nat} {order : FieldOrder} {layout : Layout}
    (made : ofWidth? fieldBits order = some layout) (logic : Logic) (mode : Mode)
    (reference : Word) (reports : List Word) :
    ∃ result, layout.select? logic mode reference reports = some result ∧
      (∀ tier, 1 ≤ tier → tier ≤ tiers → ∃ times selected,
        reports.mapM (layout.reached? · tier) = some times ∧
        layout.reached? result tier = some selected ∧
        mode.Settles (2 ^ fieldBits - 1) (logic.qualified reference.toNat times) selected) ∧
      (∀ bit, tiers * fieldBits ≤ bit → result.getLsbD bit = false) ∧
      (mode ≠ .first → ∀ shuffled : List Word, shuffled.Perm reports →
        layout.select? logic mode reference shuffled = some result) := by
  rcases width_of_ofWidth? made with ⟨rfl, supported⟩
  rcases exists_select supported logic mode reference reports with ⟨result, selected, selects⟩
  refine ⟨result, selected, ?_, selects.above, ?_⟩
  · apply forall_tier
    intro index inside
    exact ⟨_, _, mapM_reached? supported inside reports, reached?_eq supported inside result,
      selects.settles index inside⟩
  · intro unordered shuffled shuffle
    exact (select?_eq_some_iff supported).mpr (selects.perm unordered shuffle.symm)

/-- A time that is late undoes an earlier one that would have been kept. -/
theorem select_settles_each_tier_late :
    let layout : Layout := ⟨16, .highestFirst⟩
    ∃ result, layout.select? .every .least 7 [0x30004, 0x90006] = some result ∧
      layout.reached? result 7 = some 0xffff ∧ layout.reached? result 8 = some 4 ∧
      layout.select? .every .least 7 [0x90006, 0x30004] = some result := by
  intro layout
  have made : ofWidth? 16 .highestFirst = some layout := rfl
  rcases select_settles_each_tier made .every .least 7 [0x30004, 0x90006] with
    ⟨result, selected, settles, _, unordered⟩
  rcases settles 7 (by decide) (by decide) with ⟨times, time, found, reached, settled⟩
  rcases settles 8 (by decide) (by decide) with ⟨times', time', found', reached', settled'⟩
  cases found.symm.trans (show _ = some [3, 9] by decide)
  cases found'.symm.trans (show _ = some [4, 6] by decide)
  cases settled.unique .missing
  cases settled'.unique (.kept (show Mode.Keeps .least [4, 6] 4 by simp [Mode.Keeps, Mode.Leads]))
  exact ⟨result, selected, reached, reached', unordered (by decide) _ (by decide)⟩

theorem exists_parts (supported : layout.Supported) (logic : Logic) (mode : Mode)
    (reference : Word) {chunks : List (List Word)} (nonempty : ∀ chunk ∈ chunks, chunk ≠ []) :
    ∃ parts, chunks.mapM (layout.select? logic mode reference) = some parts ∧
      ∀ before result, layout.Selects logic mode reference (before ++ parts) result →
        layout.Selects logic mode reference (before ++ chunks.flatten) result := by
  -- general in what stands before, where the chunks are put that have been joined
  induction chunks with
  | nil => exact ⟨[], rfl, fun _ _ selects => selects⟩
  | cons chunk chunks ih =>
      rw [List.forall_mem_cons] at nonempty
      rcases exists_select supported logic mode reference chunk with ⟨part, selected, partSelects⟩
      rcases ih nonempty.2 with ⟨parts, partsSelected, joins⟩
      refine ⟨part :: parts, by simp [selected, partsSelected], ?_⟩
      intro before result selects
      have joined := partSelects.replace supported before parts nonempty.1 selects
      rw [← List.append_assoc] at joined
      rw [List.flatten_cons, ← List.append_assoc]
      exact joins (before ++ chunk) result joined

end Layout

/-- Any selection among less than 32 reports has an operand. -/
theorem SelectOperand.exists_ofByte (logic : Logic) (mode : Mode) {reports : Nat}
    (few : reports < 32) :
    ∃ operand, Logic.ofNat? (ofByte operand).logic = some logic ∧
      Mode.ofNat? (ofByte operand).mode = some mode ∧ (ofByte operand).reports = reports := by
  obtain ⟨logicNumber, logicSmall, isLogic⟩ : ∃ number < 2, Logic.ofNat? number = some logic := by
    cases logic with
    | every => exact ⟨0, by decide, rfl⟩
    | any => exact ⟨1, by decide, rfl⟩
  obtain ⟨modeNumber, modeSmall, isMode⟩ : ∃ number < 3, Mode.ofNat? number = some mode := by
    cases mode with
    | least => exact ⟨0, by decide, rfl⟩
    | greatest => exact ⟨1, by decide, rfl⟩
    | first => exact ⟨2, by decide, rfl⟩
  let operand := UInt8.ofNat (logicNumber * 128 + modeNumber * 32 + reports)
  have byte : operand.toNat = logicNumber * 128 + modeNumber * 32 + reports := by
    simp only [operand, UInt8.toNat_ofNat']
    omega
  have read : ofByte operand = ⟨logicNumber, modeNumber, reports⟩ := by
    simp only [ofByte, byte, SelectOperand.mk.injEq]
    omega
  rw [← isLogic, ← isMode]
  exact ⟨operand, by rw [read], by rw [read], by rw [read]⟩

namespace Machine

theorem yields_select {machine : Machine} {frame : Frame} {operand : UInt8} {logic : Logic}
    {mode : Mode} {kept reports : List Word} {reference result : Word} (nonempty : reports ≠ [])
    (isLogic : Logic.ofNat? (SelectOperand.ofByte operand).logic = some logic)
    (isMode : Mode.ofNat? (SelectOperand.ofByte operand).mode = some mode)
    (count : (SelectOperand.ofByte operand).reports = reports.length)
    (values : machine.stack.toList = kept ++ (reports ++ [reference]))
    (selected : machine.layout.select? logic mode reference reports = some result) :
    machine.Yields frame .selectLte operand kept result.toNat := by
  have some := List.length_pos_iff.mpr nonempty
  apply yields_of_combine _ values
  · simp [Reducer.combine, Reducer.select, isLogic, isMode, selected, Reducer.valueOr]
  · simp [Reducer.arity, count, isMode, nonempty]

end Machine

namespace Layout

/--
Reports may be selected in chunks. The results for two lists of reports, or for any number
of them, are selected among as reports with the result for all reports together. Since one
instruction selects among up to 31 reports, with an operand that names the logic, the mode
and the number of reports, several can do so among more.
-/
theorem selections_combine_in_chunks {fieldBits : Nat} {order : FieldOrder} {layout : Layout}
    (made : ofWidth? fieldBits order = some layout) (logic : Logic) (mode : Mode)
    (reference : Word) :
    (∀ left right : List Word, left ≠ [] → right ≠ [] → ∃ fromLeft fromRight result,
      layout.select? logic mode reference left = some fromLeft ∧
      layout.select? logic mode reference right = some fromRight ∧
      layout.select? logic mode reference (left ++ right) = some result ∧
      layout.select? logic mode reference [fromLeft, fromRight] = some result) ∧
    (∀ chunks : List (List Word), (∀ chunk ∈ chunks, chunk ≠ []) → ∃ parts result,
      chunks.mapM (layout.select? logic mode reference) = some parts ∧
      layout.select? logic mode reference chunks.flatten = some result ∧
      layout.select? logic mode reference parts = some result) ∧
    ∀ (machine : Machine) (frame : Frame) (kept reports : List Word), machine.layout = layout →
      reports ≠ [] → reports.length ≤ 31 →
      machine.stack.toList = kept ++ (reports ++ [reference]) → ∃ operand result,
        Logic.ofNat? (SelectOperand.ofByte operand).logic = some logic ∧
        Mode.ofNat? (SelectOperand.ofByte operand).mode = some mode ∧
        (SelectOperand.ofByte operand).reports = reports.length ∧
        layout.select? logic mode reference reports = some result ∧
        machine.Yields frame .selectLte operand kept result.toNat := by
  have supported := supported_of_ofWidth? made
  refine ⟨?_, ?_, ?_⟩
  · intro left right leftNonempty rightNonempty
    rcases exists_select supported logic mode reference left with
      ⟨fromLeft, leftSelected, leftSelects⟩
    rcases exists_select supported logic mode reference right with
      ⟨fromRight, rightSelected, rightSelects⟩
    rcases exists_select supported logic mode reference [fromLeft, fromRight] with
      ⟨result, selected, selects⟩
    refine ⟨fromLeft, fromRight, result, leftSelected, rightSelected, ?_, selected⟩
    have joined := leftSelects.replace supported [] [fromRight] leftNonempty selects
    have both := rightSelects.replace supported left [] rightNonempty joined
    rw [List.append_nil] at both
    exact (select?_eq_some_iff supported).mpr both
  · intro chunks nonempty
    rcases exists_parts supported logic mode reference nonempty with ⟨parts, partsSelected, joins⟩
    rcases exists_select supported logic mode reference parts with ⟨result, selected, selects⟩
    exact ⟨parts, result, partsSelected,
      (select?_eq_some_iff supported).mpr (joins [] result selects), selected⟩
  · rintro machine frame kept reports rfl nonempty few values
    rcases SelectOperand.exists_ofByte logic mode (Nat.lt_succ_of_le few) with
      ⟨operand, isLogic, isMode, count⟩
    rcases exists_select supported logic mode reference reports with ⟨result, selected, _⟩
    exact ⟨operand, result, isLogic, isMode, count, selected,
      Machine.yields_select nonempty isLogic isMode count values selected⟩

/--
With a reference wider than a field, never is a time that qualifies. It is the greatest
time of a chunk in which it occurs, and of all chunks together.
-/
theorem selections_combine_in_chunks_wide :
    let layout : Layout := ⟨16, .highestFirst⟩
    let select := layout.select? .any .greatest 0x1ffff
    let never : Word := .ones 128
    let machine : Machine :=
      { Machine.start ⟨#[], #[]⟩ {} 0 1 4 layout with
        stack := ⟨#[9, .largest, 3, 0x1ffff], 4, by decide⟩ }
    select [.largest, 3] = some never ∧ select [7] = some 7 ∧
    select [.largest, 3, 7] = some never ∧ select [never, 7] = some never ∧
    [List.replicate 31 5, [.largest, 3]].mapM select = some [5, never] ∧
    select (List.replicate 31 5 ++ [.largest, 3]) = some never ∧ select [5, never] = some never ∧
    ∃ operand, Logic.ofNat? (SelectOperand.ofByte operand).logic = some .any ∧
      Mode.ofNat? (SelectOperand.ofByte operand).mode = some .greatest ∧
      (SelectOperand.ofByte operand).reports = 2 ∧
      machine.Yields ⟨0, 0, 1, 1⟩ .selectLte operand [9] (2 ^ 128 - 1) := by
  intro layout select never machine
  have made : ofWidth? 16 .highestFirst = some layout := rfl
  have left : select [.largest, 3] = some never := by decide +kernel
  have right : select [7] = some 7 := by decide +kernel
  rcases selections_combine_in_chunks made .any .greatest 0x1ffff with ⟨two, many, instruction⟩
  rcases two [.largest, 3] [7] (by simp) (by simp) with
    ⟨fromLeft, fromRight, result, isLeft, isRight, joined, selected⟩
  cases isLeft.symm.trans left
  cases isRight.symm.trans right
  cases selected.symm.trans (show _ = some never by decide +kernel)
  rcases many [List.replicate 31 5, [.largest, 3]] (by simp) with
    ⟨parts, whole, inParts, flattened, again⟩
  have both : [List.replicate 31 5, [.largest, 3]].mapM select = some [5, never] := by
    decide +kernel
  cases inParts.symm.trans both
  cases again.symm.trans (show _ = some never by decide +kernel)
  rcases instruction machine ⟨0, 0, 1, 1⟩ [9] [.largest, 3] rfl (by simp) (by decide) rfl with
    ⟨operand, yielded, isLogic, isMode, count, found, yields⟩
  cases found.symm.trans left
  exact ⟨left, right, joined, selected, both, flattened, again, operand, isLogic, isMode, count,
    yields⟩

end Layout

end StackCert
