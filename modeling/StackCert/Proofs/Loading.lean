import Mathlib.Algebra.Ring.Nat
import StackCert.Document
import StackCert.Proofs.Leniency
import StackCert.Proofs.Promises
import StackCert.Proofs.Straying

/-!
# Layouts that are loaded

`Layout.ofWidth?` admits two widths. A layout that is read from a document, alone or
within settings, has the width that is written there, whatever 64-bit number that is:
reading does not ask whether the width is supported. Two bounds decide what follows.

Below 256 bits every operation on tier reports has a result. From 256 bits on there is
no mask, and a certified program comes to an operation that has none as soon as it may
stack the two values that the operation takes (`Settings.Strays`).

Up to 32 bits the eight fields end within the word, and a time that was written is read
back. Of wider fields the last one lies partly or wholly past the end of the word, where
it loses its upper bits.
-/

namespace StackCert

namespace Document

theorem natural?_eq_some_iff {document : Document} {bound number : Nat} :
    document.natural? bound = some number ↔ document = .ofNat number ∧ number < bound := by
  cases document with
  | integer value =>
      simp only [natural?, Option.ite_none_right_eq_some, Option.some.injEq, ofNat,
        integer.injEq]
      omega
  | null | truth | decimal | text | list | record => simp [natural?, ofNat]

end Document

namespace FieldOrder

theorem ofDocument?_toDocument (order : FieldOrder) :
    ofDocument? order.toDocument = some order := by
  cases order <;> decide

end FieldOrder

namespace Layout

variable {layout : Layout} {index : Nat}

section Reading

theorem fieldBits_lt_of_ofDocument? {document : Document}
    (read : ofDocument? document = some layout) : layout.fieldBits < UInt64.size := by
  unfold ofDocument? at read
  split at read
  · simp only [Option.bind_eq_bind, Option.bind_eq_some_iff, Option.pure_def] at read
    rcases read with ⟨width, widthRead, _, _, made⟩
    cases made
    exact (Document.natural?_eq_some_iff.mp widthRead).2
  · cases read

theorem ofDocument?_toDocument (layout : Layout) (small : layout.fieldBits < UInt64.size) :
    ofDocument? layout.toDocument = some layout := by
  have fields : layout.toDocument.fields? ["field_bits", "order"] =
      some [.ofNat layout.fieldBits, layout.order.toDocument] := rfl
  have width := Document.natural?_eq_some_iff.mpr ⟨rfl, small⟩
  simp [ofDocument?, fields, width, FieldOrder.ofDocument?_toDocument]

/-- Layouts of all 64-bit widths are read. -/
theorem exists_ofDocument?_iff :
    (∃ document, ofDocument? document = some layout) ↔ layout.fieldBits < UInt64.size :=
  ⟨fun ⟨_, read⟩ => fieldBits_lt_of_ofDocument? read,
    fun small => ⟨_, layout.ofDocument?_toDocument small⟩⟩

theorem exists_ofWidth?_iff :
    (∃ fieldBits order, ofWidth? fieldBits order = some layout) ↔
      layout.fieldBits = 16 ∨ layout.fieldBits = 32 := by
  constructor
  · rintro ⟨fieldBits, order, made⟩
    exact supported_of_ofWidth? made
  · intro admitted
    exact ⟨layout.fieldBits, layout.order, if_pos admitted⟩

end Reading

section Ends

/-- Every field starts at some bit and ends within the word. -/
def Fits (layout : Layout) : Prop :=
  ∀ index < tiers, ∃ offset, layout.offset? index = some offset ∧ offset + layout.fieldBits ≤ 256

/-- A time that is as wide as a field at most is read back from the field it was written into. -/
def Recovers (layout : Layout) : Prop :=
  ∀ report time : Word, time.toNat < 2 ^ layout.fieldBits → ∀ index < tiers, ∃ after,
    layout.setField? report index time = some after ∧ layout.time? after (index + 1) = some time

/-- The field that is the farthest from the lowest bit. -/
def highest (layout : Layout) : Nat := layout.below (tiers - 1)

theorem highest_lt (layout : Layout) : layout.highest < tiers := layout.below_lt (by decide)

theorem start_highest (layout : Layout) : layout.start layout.highest = 7 * layout.fieldBits := by
  rw [start, highest, layout.below_below (by decide), tiers]

theorem fits_iff : layout.Fits ↔ layout.fieldBits ≤ 32 := by
  constructor
  · intro fits
    rcases fits _ layout.highest_lt with ⟨offset, found, within⟩
    rw [layout.offset?_eq_ite layout.highest_lt, Option.ite_none_right_eq_some] at found
    have position := layout.start_highest
    have same := Option.some.inj found.2
    omega
  · intro narrow index inside
    have within := layout.start_add_le inside
    refine ⟨_, offset?_of_narrow (by omega) inside, ?_⟩
    simp only [tiers] at within
    omega

/-- What is read from a field after a write into it: the bits of the time that are in the word. -/
theorem getLsbD_field_write_self (narrow : layout.fieldBits < 256) (report time : Word)
    (index bit : Nat) :
    (layout.field (layout.write report index time) index).getLsbD bit =
      (decide (bit < layout.fieldBits) && decide (layout.start index + bit < 256) &&
        time.getLsbD bit) := by
  have ones := Word.getLsbD_ones (Nat.le_of_lt narrow) bit
  have notBefore : ¬layout.start index + bit < layout.start index := by omega
  simp only [field, write, BitVec.getLsbD_and, BitVec.getLsbD_ushiftRight, BitVec.getLsbD_or,
    BitVec.getLsbD_not, BitVec.getLsbD_shiftLeft, ones, notBefore, Nat.add_sub_cancel_left,
    decide_false, Bool.not_false, Bool.and_true]
  by_cases inField : bit < layout.fieldBits <;>
    by_cases inWord : layout.start index + bit < 256 <;> simp [inField, inWord]

theorem field_write_self (narrow : layout.fieldBits ≤ 32) (inside : index < tiers) (report : Word)
    {time : Word} (fits : time.toNat < 2 ^ layout.fieldBits) :
    layout.field (layout.write report index time) index = time := by
  have within := layout.start_add_le inside
  simp only [tiers] at within
  apply BitVec.eq_of_getLsbD_eq
  intro bit _
  rw [getLsbD_field_write_self (by omega)]
  by_cases inField : bit < layout.fieldBits
  · have inWord : layout.start index + bit < 256 := by omega
    simp [inField, inWord]
  · have upper : time.toNat < 2 ^ bit :=
      Nat.lt_of_lt_of_le fits (Nat.pow_le_pow_right Nat.two_pos (Nat.not_lt.mp inField))
    have clear : time.getLsbD bit = false := Nat.testBit_lt_two_pow upper
    simp [inField, clear]

theorem recovers_iff : layout.Recovers ↔ layout.fieldBits ≤ 32 := by
  constructor
  · intro recovers
    rcases Nat.lt_or_ge layout.fieldBits 256 with narrow | wide
    · -- in the highest field, the uppermost bit of the largest time has to be in the word
      have largest : (Word.ones layout.fieldBits).toNat < 2 ^ layout.fieldBits := by
        rw [Word.toNat_ones (Nat.le_of_lt narrow)]
        exact Nat.sub_lt (Nat.two_pow_pos _) Nat.one_pos
      rcases recovers 0 _ largest _ layout.highest_lt with ⟨after, written, read⟩
      rw [setField?_of_narrow narrow layout.highest_lt, Option.some.injEq] at written
      rw [← written, time?_of_narrow narrow layout.highest_lt, Option.some.injEq] at read
      have uppermost := congrArg (·.getLsbD (layout.fieldBits - 1)) read
      simp only [getLsbD_field_write_self narrow, Word.getLsbD_ones (Nat.le_of_lt narrow),
        layout.start_highest, Bool.and_eq_right_iff_imp, decide_eq_true_eq, Bool.and_eq_true]
        at uppermost
      omega
    · rcases recovers 0 0 (Nat.two_pow_pos _) 0 (by decide) with ⟨after, written, _⟩
      rw [setField?_of_wide wide] at written
      cases written
  · intro small report time fits index inside
    have narrow : layout.fieldBits < 256 := by omega
    refine ⟨_, setField?_of_narrow narrow inside report time, ?_⟩
    rw [time?_of_narrow narrow inside, field_write_self small inside report fits]

end Ends

end Layout

namespace Reducer

variable {layout : Layout} {operand : UInt8} {reducer : Reducer} {words : List Word}

/-- Operations on tier reports take two values at least. -/
theorem two_le_length_of_undefined (counted : reducer.arity operand = .ok words.length)
    (undefined : reducer.Undefined layout operand words) : 2 ≤ words.length := by
  unfold Undefined at undefined
  split at undefined
  · exact Nat.le_refl 2
  · exact Nat.le_refl 2
  · simp only [arity] at counted
    split at counted
    · cases counted
    · rename_i admitted
      have count := Except.ok.inj counted
      omega
  · exact undefined.elim

end Reducer

theorem Machine.Strays.two_le_limit {machine : Machine} (strays : machine.Strays) :
    2 ≤ machine.stack.limit := by
  rcases strays with ⟨_, _, _, _, kept, words, _, counted, values, _, undefined⟩
  have several := Reducer.two_le_length_of_undefined counted undefined
  have size := Stack.size_eq_of_toList values
  have bounded := machine.stack.size_le_limit
  rw [Stack.size] at size
  omega

namespace Settings

variable {settings settings' : Settings} {program : Program} {bounds : Bounds}
  {outputs : List Nat} {expression : Expression}

section Reading

theorem ofDocument?_toDocument (settings : Settings) (low : settings.stackLimit < UInt64.size)
    (small : settings.layout.fieldBits < UInt64.size) :
    ofDocument? settings.toDocument = some settings := by
  have fields : settings.toDocument.fields? ["stack_limit", "step_limit", "report_layout"] =
      some [.ofNat settings.stackLimit, .ofNat settings.stepLimit.toNat,
        settings.layout.toDocument] := rfl
  have limit := Document.natural?_eq_some_iff.mpr ⟨rfl, low⟩
  have steps := Document.natural?_eq_some_iff.mpr ⟨rfl, settings.stepLimit.toNat_lt_size⟩
  simp [ofDocument?, fields, limit, steps, Layout.ofDocument?_toDocument _ small]

/-- Of the settings that are read only the ranges of the numbers are known. -/
theorem exists_ofDocument?_iff :
    (∃ document, ofDocument? document = some settings) ↔
      settings.stackLimit < UInt64.size ∧ settings.layout.fieldBits < UInt64.size := by
  constructor
  · rintro ⟨document, read⟩
    unfold ofDocument? at read
    split at read
    · simp only [Option.bind_eq_bind, Option.bind_eq_some_iff, Option.pure_def] at read
      rcases read with ⟨limit, limitRead, _, _, layout, layoutRead, made⟩
      cases made
      exact ⟨(Document.natural?_eq_some_iff.mp limitRead).2,
        Layout.fieldBits_lt_of_ofDocument? layoutRead⟩
    · cases read
  · rintro ⟨low, small⟩
    exact ⟨_, settings.ofDocument?_toDocument low small⟩

end Reading

section Straying

/--
An evaluation of a program that the settings certified comes to an operation on tier
reports without a result, and the instruction is permitted.
-/
def Strays (settings : Settings) : Prop :=
  ∃ program bounds outputs expression request evaluation,
    settings.deploy program bounds outputs = .ok expression ∧
    settings.opening? expression request = some evaluation ∧
    ∃ (σ : Type) (_ : Store σ) (store : σ) (stepLimit : UInt64) (journal : Journal) (steps : Nat),
      let now := evaluation.after Executor.host (Executor.start store stepLimit journal) steps
      now.1.Strays Executor.host now.2

theorem height_le_of_deploy (deployed : settings.deploy program bounds outputs = .ok expression)
    {source expected height : Nat} (entry : expression.outputs[source]? = some expected)
    (found : expression.heights[source]? = some height) : height ≤ settings.stackLimit := by
  rcases deploy_eq_ok_iff.mp deployed with ⟨heights, accepted, rfl⟩
  rcases Certifier.check_eq_ok_iff_balanced.mp accepted with ⟨_, balanced⟩
  have within := (balanced source expected height entry found).2
  exact Terms.exceededBy_eq_false_iff.mp within _ rfl

/-- A program is deployed alike under every limit that its heights are within. -/
theorem deploy_of_heights_le (deployed : settings.deploy program bounds outputs = .ok expression)
    (within : ∀ height ∈ expression.heights, height ≤ settings'.stackLimit) :
    settings'.deploy program bounds outputs = .ok expression := by
  rcases deploy_eq_ok_iff.mp deployed with ⟨heights, accepted, rfl⟩
  rcases Certifier.check_eq_ok_iff_balanced.mp accepted with ⟨length, balanced⟩
  refine deploy_eq_ok_iff.mpr ⟨heights, Certifier.check_eq_ok_iff_balanced.mpr ⟨length, ?_⟩, rfl⟩
  intro source expected height entry found
  refine ⟨(balanced source expected height entry found).1, ?_⟩
  apply Terms.exceededBy_eq_false_iff.mpr
  rintro limit ⟨⟩
  exact within height (List.mem_of_getElem? found)

/-- A machine that strays has the layout of the settings and a height that they certified. -/
theorem Strays.wide_and_high (strays : settings.Strays) :
    256 ≤ settings.layout.fieldBits ∧ 2 ≤ settings.stackLimit := by
  rcases strays with ⟨program, bounds, outputs, expression, request, evaluation, deployed, opened,
    σ, _, store, stepLimit, journal, steps, strays⟩
  have running := running_of_opening? opened
  rcases opening?_eq_some_iff.mp opened with ⟨expected, height, entry, found, _, rfl⟩
  constructor
  · have wide := strays.machine.wide
    rwa [Evaluation.layout_after _ _ running] at wide
  · have high := strays.machine.two_le_limit
    rw [Evaluation.limit_after _ _ running] at high
    exact Nat.le_trans high (height_le_of_deploy deployed entry found)

theorem strays_of_wide (wide : 256 ≤ settings.layout.fieldBits) (high : 2 ≤ settings.stackLimit) :
    settings.Strays := by
  have standard :
      Settings.standard.deploy .difference {} [1] = .ok ⟨.difference, {}, [1], [2]⟩ := by
    decide +kernel
  have deployed : settings.deploy .difference {} [1] = .ok ⟨.difference, {}, [1], [2]⟩ :=
    deploy_of_heights_le standard (by simpa using high)
  have opened : settings.opening? ⟨.difference, {}, [1], [2]⟩ {} =
      some (.differenceAt settings.layout 0 (.empty 2)) := rfl
  have started : Executor.start {} 3 {} = Evaluation.counting 0 := rfl
  refine ⟨_, _, _, _, {}, _, deployed, opened, SparseStore, inferInstance, {}, 3, {}, 2, ?_⟩
  simp only [started, Evaluation.after_differenceAt]
  exact Evaluation.strays_differenceAt wide

end Straying

/--
Reading checks no width. Layouts of all 64-bit widths are read, alone or within settings,
though only two widths can be asked for when a layout is made. Under settings with fields
of 256 bits or more, and in no others, a certified program comes to an operation on tier
reports that has no result, provided that two values may be stacked. The fields end
within the word, and times are read back as they were written, if fields have 32 bits at
most, and in no other case.
-/
theorem loaded_width_is_unchecked (settings : Settings) :
    let fieldBits := settings.layout.fieldBits
    ((∃ document, Layout.ofDocument? document = some settings.layout) ↔
      fieldBits < UInt64.size) ∧
    ((∃ document, Settings.ofDocument? document = some settings) ↔
      settings.stackLimit < UInt64.size ∧ fieldBits < UInt64.size) ∧
    ((∃ width order, Layout.ofWidth? width order = some settings.layout) ↔
      fieldBits = 16 ∨ fieldBits = 32) ∧
    (settings.Strays ↔ 256 ≤ fieldBits ∧ 2 ≤ settings.stackLimit) ∧
    (settings.layout.Fits ↔ fieldBits ≤ 32) ∧
    (settings.layout.Recovers ↔ fieldBits ≤ 32) := by
  refine ⟨Layout.exists_ofDocument?_iff, exists_ofDocument?_iff, Layout.exists_ofWidth?_iff, ?_,
    Layout.fits_iff, Layout.recovers_iff⟩
  constructor
  · exact Strays.wide_and_high
  · rintro ⟨wide, high⟩
    exact strays_of_wide wide high

/-- Settings with fields as wide as a word are read, and no time between reports is defined. -/
theorem unsupported_width_is_loaded :
    let layout : Layout := ⟨256, .lowestFirst⟩
    let document : Document := .record [("stack_limit", .integer 1024),
      ("step_limit", .integer 1000000),
      ("report_layout", .record [("field_bits", .integer 256), ("order", .text "LowestFirst")])]
    Settings.ofDocument? document = some ⟨1024, 1000000, layout⟩ ∧
      Layout.ofWidth? 256 .lowestFirst = none ∧ layout.elapsed? 0 0 = none := by
  decide

end Settings

end StackCert
