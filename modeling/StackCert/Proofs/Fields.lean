import Mathlib.Algebra.Ring.Nat
import StackCert.Selection

/-!
# The fields of a report

Under a layout that `Layout.ofWidth?` admits, the eight fields of a report lie side by
side in the lowest bits of the word. The field to which a bit belongs is found by
dividing its position by the width of a field. No bit belongs to two fields, therefore,
and a report is known from its fields and the bits above them (`eq_of_fields`).

Reading and writing a field are the total functions `field` and `write` as long as a field
is narrower than a word, and every operation on reports writes into one field after
another (`fill`). With a layout that is admitted nothing goes beyond the word: each field
then holds what was written into it, and all other bits are as they were.

A selection visits the reports once for each tier, and a late time may end the visit. What
the visits leave is known from all the times of the tier together (`settled?_visit?`).
-/

namespace StackCert

namespace Word

/-- The word in which the given number of lowest bits is set. -/
def ones (count : Nat) : Word := .ofNat 256 (2 ^ count - 1)

variable {count : Nat}

theorem getLsbD_ones (narrow : count ≤ 256) (bit : Nat) :
    (ones count).getLsbD bit = decide (bit < count) := by
  rw [ones, BitVec.getLsbD_ofNat, Nat.testBit_two_pow_sub_one, ← Bool.decide_and]
  exact decide_eq_decide.mpr ⟨And.right, fun inside => ⟨by omega, inside⟩⟩

theorem toNat_ones (narrow : count ≤ 256) : (ones count).toNat = 2 ^ count - 1 := by
  have bound : 2 ^ count ≤ 2 ^ 256 := Nat.pow_le_pow_right Nat.two_pos narrow
  have positive := Nat.two_pow_pos count
  rw [ones, BitVec.toNat_ofNat, Nat.mod_eq_of_lt (by omega)]

theorem toNat_and_ones (narrow : count ≤ 256) (word : Word) :
    (word &&& ones count).toNat = word.toNat % 2 ^ count := by
  rw [BitVec.toNat_and, toNat_ones narrow, Nat.and_two_pow_sub_one_eq_mod]

end Word

namespace Mode

/-- The time kept of a list in the order of the reports, if there is any. -/
def pick? (mode : Mode) : List Word → Option Word
  | [] => none
  | time :: times => some (times.foldl mode.keep time)

theorem pick?_keepNext (mode : Mode) (kept : Option Word) (time : Word) (times : List Word) :
    mode.pick? (mode.keepNext kept time :: times) =
      mode.pick? (kept.toList ++ time :: times) := by
  cases kept <;> rfl

end Mode

namespace Layout

/-- A layout with fields of a width that is admitted. -/
def Supported (layout : Layout) : Prop := layout.fieldBits = 16 ∨ layout.fieldBits = 32

theorem width_of_ofWidth? {fieldBits : Nat} {order : FieldOrder} {layout : Layout}
    (made : ofWidth? fieldBits order = some layout) :
    layout.fieldBits = fieldBits ∧ layout.Supported := by
  unfold ofWidth? at made
  split at made
  · rename_i admitted
    cases made
    exact ⟨rfl, admitted⟩
  · cases made

theorem supported_of_ofWidth? {fieldBits : Nat} {order : FieldOrder} {layout : Layout}
    (made : ofWidth? fieldBits order = some layout) : layout.Supported :=
  (width_of_ofWidth? made).2

/-- How many fields lie below the field with the given index. -/
def below (layout : Layout) (index : Nat) : Nat :=
  match layout.order with
  | .lowestFirst => index
  | .highestFirst => tiers - 1 - index

/-- The bit at which a field starts. -/
def start (layout : Layout) (index : Nat) : Nat := layout.below index * layout.fieldBits

/-- The time in a field. -/
def field (layout : Layout) (report : Word) (index : Nat) : Word :=
  report >>> layout.start index &&& .ones layout.fieldBits

/-- The report with a time written into a field. -/
def write (layout : Layout) (report : Word) (index : Nat) (time : Word) : Word :=
  (report &&& ~~~(Word.ones layout.fieldBits <<< layout.start index)) |||
    (time &&& .ones layout.fieldBits) <<< layout.start index

/-- The report with times written into several fields, one after another. -/
def fill (layout : Layout) (report : Word) (times : Nat → Word) (indices : List Nat) : Word :=
  indices.foldl (fun report index => layout.write report index (times index)) report

/-- The number of the time at which a tier was reached. -/
def reached? (layout : Layout) (report : Word) (tier : Nat) : Option Nat :=
  (layout.time? report tier).map BitVec.toNat

variable {layout : Layout} {index other bit : Nat}

section Position

theorem Supported.fieldBits_pos (supported : layout.Supported) : 0 < layout.fieldBits := by
  rcases supported with width | width <;> omega

theorem Supported.tiers_mul_le (supported : layout.Supported) :
    tiers * layout.fieldBits ≤ 256 := by
  rcases supported with width | width <;> simp [width, tiers]

theorem Supported.narrow (supported : layout.Supported) : layout.fieldBits < 256 := by
  rcases supported with width | width <;> omega

theorem Supported.fieldBits_le (supported : layout.Supported) : layout.fieldBits ≤ 256 :=
  Nat.le_of_lt supported.narrow

theorem below_lt (layout : Layout) (inside : index < tiers) : layout.below index < tiers := by
  unfold below
  cases layout.order with
  | lowestFirst => exact inside
  | highestFirst =>
      simp only [tiers] at inside ⊢
      omega

theorem below_below (layout : Layout) (inside : index < tiers) :
    layout.below (layout.below index) = index := by
  unfold below
  cases layout.order with
  | lowestFirst => rfl
  | highestFirst =>
      simp only [tiers] at inside ⊢
      omega

theorem below_inj (layout : Layout) (inside : index < tiers) (inside' : other < tiers) :
    layout.below index = layout.below other ↔ index = other := by
  constructor
  · intro same
    rw [← layout.below_below inside, same, layout.below_below inside']
  · exact congrArg layout.below

theorem start_add_le (layout : Layout) (inside : index < tiers) :
    layout.start index + layout.fieldBits ≤ tiers * layout.fieldBits := by
  rw [start, ← Nat.succ_mul]
  exact Nat.mul_le_mul_right _ (layout.below_lt inside)

theorem start_add_div (layout : Layout) (index : Nat) (inside : bit < layout.fieldBits) :
    (layout.start index + bit) / layout.fieldBits = layout.below index := by
  rw [start, Nat.mul_comm, Nat.mul_add_div (Nat.zero_lt_of_lt inside), Nat.div_eq_of_lt inside,
    Nat.add_zero]

end Position

section Bits

theorem getLsbD_field (supported : layout.Supported) (report : Word) (index bit : Nat) :
    (layout.field report index).getLsbD bit =
      (decide (bit < layout.fieldBits) && report.getLsbD (layout.start index + bit)) := by
  rw [field, BitVec.getLsbD_and, BitVec.getLsbD_ushiftRight,
    Word.getLsbD_ones supported.fieldBits_le, Bool.and_comm]

theorem getLsbD_placed (supported : layout.Supported) (inside : index < tiers) (word : Word)
    (bit : Nat) :
    ((word &&& .ones layout.fieldBits) <<< layout.start index).getLsbD bit =
      (decide (bit / layout.fieldBits = layout.below index) &&
        word.getLsbD (bit % layout.fieldBits)) := by
  have within := Nat.le_trans (layout.start_add_le inside) supported.tiers_mul_le
  have remainder := Nat.mod_lt bit supported.fieldBits_pos
  rw [BitVec.getLsbD_shiftLeft, BitVec.getLsbD_and, Word.getLsbD_ones supported.fieldBits_le]
  by_cases inField : bit / layout.fieldBits = layout.below index
  · have position : layout.start index + bit % layout.fieldBits = bit := by
      rw [start, ← inField, Nat.div_add_mod']
    have inWord : bit < 256 := by omega
    have notBefore : ¬bit < layout.start index := by omega
    have distance : bit - layout.start index = bit % layout.fieldBits := by omega
    simp [inField, inWord, notBefore, distance, remainder]
  · have outside := mt (Nat.div_eq_iff supported.fieldBits_pos).mpr inField
    rw [← start] at outside
    have apart : bit < layout.start index ∨ ¬bit - layout.start index < layout.fieldBits := by
      omega
    rcases apart with before | behind
    · simp [inField, before]
    · simp [inField, behind]

theorem getLsbD_write (supported : layout.Supported) (inside : index < tiers) (report time : Word)
    (bit : Nat) :
    (layout.write report index time).getLsbD bit =
      if bit / layout.fieldBits = layout.below index then time.getLsbD (bit % layout.fieldBits)
      else report.getLsbD bit := by
  have mask := getLsbD_placed supported inside (.ones layout.fieldBits) bit
  have remainder := Nat.mod_lt bit supported.fieldBits_pos
  rw [BitVec.and_self, Word.getLsbD_ones supported.fieldBits_le] at mask
  rw [write, BitVec.getLsbD_or, BitVec.getLsbD_and, BitVec.getLsbD_not, mask,
    getLsbD_placed supported inside]
  by_cases inField : bit / layout.fieldBits = layout.below index
  · simp [inField, remainder]
  · simpa [inField] using BitVec.lt_of_getLsbD

theorem getLsbD_write_above (supported : layout.Supported) (inside : index < tiers)
    (report time : Word) (above : tiers * layout.fieldBits ≤ bit) :
    (layout.write report index time).getLsbD bit = report.getLsbD bit := by
  have beyond : tiers ≤ bit / layout.fieldBits :=
    (Nat.le_div_iff_mul_le supported.fieldBits_pos).mpr above
  have lower := layout.below_lt inside
  rw [getLsbD_write supported inside, if_neg (by omega)]

/-- A report is known from its fields and the bits above them. -/
theorem eq_of_fields (supported : layout.Supported) {left right : Word}
    (fields : ∀ index < tiers, layout.field left index = layout.field right index)
    (above : ∀ bit, tiers * layout.fieldBits ≤ bit → left.getLsbD bit = right.getLsbD bit) :
    left = right := by
  apply BitVec.eq_of_getLsbD_eq
  intro bit _
  rcases Nat.lt_or_ge bit (tiers * layout.fieldBits) with within | beyond
  · -- counting from the other end twice leads back to the field of the bit
    have inside : bit / layout.fieldBits < tiers :=
      (Nat.div_lt_iff_lt_mul supported.fieldBits_pos).mpr within
    have position :
        layout.start (layout.below (bit / layout.fieldBits)) + bit % layout.fieldBits = bit := by
      rw [start, layout.below_below inside, Nat.div_add_mod']
    have same := congrArg (·.getLsbD (bit % layout.fieldBits)) (fields _ (layout.below_lt inside))
    simpa [getLsbD_field supported, Nat.mod_lt bit supported.fieldBits_pos, position] using same
  · exact above bit beyond

end Bits

section Fields

theorem toNat_field_lt (supported : layout.Supported) (report : Word) (index : Nat) :
    (layout.field report index).toNat < 2 ^ layout.fieldBits := by
  rw [field, Word.toNat_and_ones supported.fieldBits_le]
  exact Nat.mod_lt _ (Nat.two_pow_pos _)

/-- Reading a field after a write into any field. -/
theorem field_write (supported : layout.Supported) (inside : index < tiers)
    (inside' : other < tiers) (report time : Word) :
    layout.field (layout.write report index time) other =
      if other = index then time &&& .ones layout.fieldBits else layout.field report other := by
  apply BitVec.eq_of_getLsbD_eq
  intro bit _
  rw [getLsbD_field supported, getLsbD_write supported inside]
  by_cases small : bit < layout.fieldBits
  · rw [layout.start_add_div other small, start, Nat.mul_add_mod_of_lt small, ← start]
    by_cases same : other = index
    · simp [same, small, Word.getLsbD_ones supported.fieldBits_le]
    · -- different fields hold bits with different quotients
      have apart : layout.below other ≠ layout.below index :=
        mt (layout.below_inj inside' inside).mp same
      simp [same, apart, small, getLsbD_field supported]
  · rw [decide_eq_false small, Bool.false_and]
    split
    · simp [small, Word.getLsbD_ones supported.fieldBits_le]
    · simp [small, getLsbD_field supported]

/-- Every field holds what was written into it. -/
theorem field_fill (supported : layout.Supported) {indices : List Nat}
    (inside : ∀ index ∈ indices, index < tiers) (inside' : other < tiers) (report : Word)
    (times : Nat → Word) :
    layout.field (layout.fill report times indices) other =
      if other ∈ indices then times other &&& .ones layout.fieldBits
      else layout.field report other := by
  induction indices generalizing report with
  | nil => rfl
  | cons index indices ih =>
      rw [List.forall_mem_cons] at inside
      refine (ih inside.2 _).trans ?_
      rw [field_write supported inside.1 inside']
      by_cases later : other ∈ indices
      · simp [later]
      · by_cases same : other = index
        · simp [same]
        · simp [later, same]

theorem getLsbD_fill_above (supported : layout.Supported) {indices : List Nat}
    (inside : ∀ index ∈ indices, index < tiers) (report : Word) (times : Nat → Word)
    (above : tiers * layout.fieldBits ≤ bit) :
    (layout.fill report times indices).getLsbD bit = report.getLsbD bit := by
  induction indices generalizing report with
  | nil => rfl
  | cons index indices ih =>
      rw [List.forall_mem_cons] at inside
      exact (ih inside.2 _).trans (getLsbD_write_above supported inside.1 report _ above)

theorem field_fill_range (supported : layout.Supported) (inside : index < tiers)
    (times : Nat → Word) :
    layout.field (layout.fill 0 times (List.range tiers)) index =
      times index &&& .ones layout.fieldBits := by
  rw [field_fill supported (fun _ => List.mem_range.mp) inside,
    if_pos (List.mem_range.mpr inside)]

theorem getLsbD_fill_range (supported : layout.Supported) (times : Nat → Word)
    (above : tiers * layout.fieldBits ≤ bit) :
    (layout.fill 0 times (List.range tiers)).getLsbD bit = false :=
  (getLsbD_fill_above supported (fun _ => List.mem_range.mp) 0 times above).trans
    BitVec.getLsbD_zero

theorem or_ones_eq_write (layout : Layout) (report : Word) (index : Nat) :
    report ||| Word.ones layout.fieldBits <<< layout.start index =
      layout.write report index (.ones layout.fieldBits) := by
  rw [write, BitVec.and_self]
  generalize Word.ones layout.fieldBits <<< layout.start index = bits
  ext bit inWord
  simp only [BitVec.getElem_or, BitVec.getElem_and, BitVec.getElem_not]
  cases report[bit] <;> simp

theorem field_ones (supported : layout.Supported) (inside : index < tiers) :
    layout.field (.ones (tiers * layout.fieldBits)) index = .ones layout.fieldBits := by
  have within := layout.start_add_le inside
  apply BitVec.eq_of_getLsbD_eq
  intro bit _
  rw [getLsbD_field supported, Word.getLsbD_ones supported.fieldBits_le,
    Word.getLsbD_ones supported.tiers_mul_le, ← Bool.decide_and]
  apply decide_eq_decide.mpr
  constructor
  · exact And.left
  · intro small
    exact ⟨small, by omega⟩

theorem fill_ones (supported : layout.Supported) :
    layout.fill 0 (fun _ => .ones layout.fieldBits) (List.range tiers) =
      .ones (tiers * layout.fieldBits) := by
  apply eq_of_fields supported
  · intro index inside
    rw [field_fill_range supported inside, BitVec.and_self, field_ones supported inside]
  · intro bit above
    rw [getLsbD_fill_range supported _ above, Word.getLsbD_ones supported.tiers_mul_le,
      decide_eq_false (by omega)]

end Fields

section Operations

theorem mask?_of_narrow (narrow : layout.fieldBits < 256) :
    layout.mask? = some (.ones layout.fieldBits) := by
  have bound : 2 ^ layout.fieldBits < 2 ^ 256 := Nat.pow_lt_pow_right Nat.one_lt_two narrow
  have shifted : Word.shiftUp 1 layout.fieldBits = .ofNat 256 (2 ^ layout.fieldBits) := by
    apply BitVec.eq_of_toNat_eq
    rw [Word.shiftUp_eq, BitVec.toNat_shiftLeft, BitVec.toNat_ofNat, Nat.shiftLeft_eq]
    exact congrArg (· % 2 ^ 256) (Nat.one_mul _)
  rw [mask?, if_pos narrow, shifted]
  apply congrArg some
  apply BitVec.eq_of_toNat_eq
  rw [Word.toNat_ones (Nat.le_of_lt narrow), BitVec.toNat_sub_of_le]
  · rw [BitVec.toNat_ofNat, Nat.mod_eq_of_lt bound]
    rfl
  · rw [BitVec.le_def, BitVec.toNat_ofNat, Nat.mod_eq_of_lt bound]
    exact Nat.two_pow_pos _

/-- Fields have offsets as long as these are 64-bit numbers. -/
theorem offset?_eq_ite (layout : Layout) (inside : index < tiers) :
    layout.offset? index =
      if layout.start index < UInt64.size then some (layout.start index) else none := by
  unfold offset? start below
  cases layout.order with
  | lowestFirst => rfl
  | highestFirst => rw [if_pos inside]

theorem offset?_of_narrow (narrow : layout.fieldBits < 256) (inside : index < tiers) :
    layout.offset? index = some (layout.start index) := by
  have within := layout.start_add_le inside
  rw [layout.offset?_eq_ite inside, if_pos]
  simp only [tiers, UInt64.size] at within ⊢
  omega

theorem time?_of_narrow (narrow : layout.fieldBits < 256) (inside : index < tiers)
    (report : Word) : layout.time? report (index + 1) = some (layout.field report index) := by
  have last : ¬tiers < index + 1 := by omega
  simp [time?, last, offset?_of_narrow narrow inside, mask?_of_narrow narrow, Word.shiftDown_eq,
    field]

theorem time?_eq (supported : layout.Supported) (inside : index < tiers) (report : Word) :
    layout.time? report (index + 1) = some (layout.field report index) :=
  time?_of_narrow supported.narrow inside report

theorem reached?_eq (supported : layout.Supported) (inside : index < tiers) (report : Word) :
    layout.reached? report (index + 1) = some (layout.field report index).toNat := by
  rw [reached?, time?_eq supported inside, Option.map_some]

theorem setField?_of_narrow (narrow : layout.fieldBits < 256) (inside : index < tiers)
    (report time : Word) :
    layout.setField? report index time = some (layout.write report index time) := by
  simp [setField?, offset?_of_narrow narrow inside, mask?_of_narrow narrow, Word.shiftUp_eq, write]

theorem foldlM_eq_fill {step : Word → Nat → Option Word} {indices : List Nat}
    {times : Nat → Word}
    (writes : ∀ report, ∀ index ∈ indices,
      step report index = some (layout.write report index (times index)))
    (report : Word) :
    indices.foldlM step report = some (layout.fill report times indices) := by
  induction indices generalizing report with
  | nil => rfl
  | cons index indices ih =>
      rw [List.foldlM_cons, writes report index (List.mem_cons_self ..)]
      exact ih (fun report index member => writes report index (List.mem_cons_of_mem _ member)) _

theorem never?_eq (supported : layout.Supported) :
    layout.never? = some (.ones (tiers * layout.fieldBits)) := by
  -- setting all bits of a field is writing a time of all ones into it
  rw [← fill_ones supported]
  apply foldlM_eq_fill
  intro report index member
  rw [mask?_of_narrow supported.narrow,
    offset?_of_narrow supported.narrow (List.mem_range.mp member), ← or_ones_eq_write,
    ← Word.shiftUp_eq]
  rfl

theorem setTiers?_of_narrow (narrow : layout.fieldBits < 256) (report : Word) (first last : Nat)
    (time : Word) :
    layout.setTiers? report first last time =
      some (layout.fill report (fun _ => time) (List.range' first (min last tiers - first))) := by
  apply foldlM_eq_fill
  intro report index member
  rw [List.mem_range'_1] at member
  exact setField?_of_narrow narrow (by omega) report time

theorem setTiers?_eq (supported : layout.Supported) (report : Word) (first last : Nat)
    (time : Word) :
    layout.setTiers? report first last time =
      some (layout.fill report (fun _ => time) (List.range' first (min last tiers - first))) :=
  setTiers?_of_narrow supported.narrow report first last time

theorem elapsed?_of_narrow (narrow : layout.fieldBits < 256) (newer older : Word) :
    layout.elapsed? newer older =
      some (layout.fill 0
        (fun index => (layout.field newer index).saturatingSub (layout.field older index))
        (List.range tiers)) := by
  apply foldlM_eq_fill
  intro report index member
  have inside := List.mem_range.mp member
  rw [time?_of_narrow narrow inside, time?_of_narrow narrow inside]
  exact setField?_of_narrow narrow inside report _

theorem elapsed?_eq (supported : layout.Supported) (newer older : Word) :
    layout.elapsed? newer older =
      some (layout.fill 0
        (fun index => (layout.field newer index).saturatingSub (layout.field older index))
        (List.range tiers)) :=
  elapsed?_of_narrow supported.narrow newer older

end Operations

section Selection

/-- The time selected for one tier, from the one kept so far and its times in the reports left. -/
def qualify? (logic : Logic) (mode : Mode) (reference : Word) (kept : Option Word)
    (times : List Word) : Option Word :=
  match logic with
  | .every => if times.all (· ≤ reference) then mode.pick? (kept.toList ++ times) else none
  | .any => mode.pick? (kept.toList ++ times.filter (· ≤ reference))

variable {logic : Logic} {mode : Mode} {reference time : Word} {kept : Option Word}
  {times : List Word}

theorem qualify?_cons_of_le (early : time ≤ reference) :
    qualify? logic mode reference kept (time :: times) =
      qualify? logic mode reference (some (mode.keepNext kept time)) times := by
  cases logic with
  | every => simp [qualify?, early, mode.pick?_keepNext]
  | any => simp [qualify?, early, mode.pick?_keepNext]

theorem qualify?_every_of_not_le (late : ¬time ≤ reference) :
    qualify? .every mode reference kept (time :: times) = none := by
  simp [qualify?, late]

theorem qualify?_any_of_not_le (late : ¬time ≤ reference) :
    qualify? .any mode reference kept (time :: times) =
      qualify? .any mode reference kept times := by
  simp [qualify?, late]

/-- Visiting the reports one after another leaves the time that qualifies among all of them. -/
theorem settled?_visit? (narrow : layout.fieldBits < 256) (inside : index < tiers) (logic : Logic)
    (mode : Mode) (reference : Word) (kept : Option Word) (reports : List Word) :
    (layout.visit? logic mode reference (index + 1) kept reports).bind layout.settled? =
      some ((qualify? logic mode reference kept (reports.map (layout.field · index))).getD
        (.ones layout.fieldBits)) := by
  have mask := mask?_of_narrow narrow
  -- general in the time kept so far, which the reports visited before have left
  induction reports generalizing kept with
  | nil => cases logic <;> cases kept <;> simp [visit?, settled?, qualify?, Mode.pick?, mask]
  | cons report reports ih =>
      rw [visit?, time?_of_narrow narrow inside, List.map_cons]
      simp only [Option.bind_eq_bind, Option.bind_some]
      by_cases early : layout.field report index ≤ reference
      · rw [if_pos early, qualify?_cons_of_le early]
        exact ih _
      · rw [if_neg early]
        cases logic with
        | every =>
            -- the visit breaks off, and whatever was kept before is given up
            rw [if_pos rfl, qualify?_every_of_not_le early]
            cases kept <;> exact mask
        | any =>
            rw [if_neg (by decide), qualify?_any_of_not_le early]
            exact ih kept

theorem select?_of_narrow (narrow : layout.fieldBits < 256) (logic : Logic) (mode : Mode)
    (reference : Word) (reports : List Word) :
    layout.select? logic mode reference reports =
      some (layout.fill 0
        (fun index => (qualify? logic mode reference none
          (reports.map (layout.field · index))).getD (.ones layout.fieldBits))
        (List.range tiers)) := by
  apply foldlM_eq_fill
  intro report index member
  have inside := List.mem_range.mp member
  have settled := settled?_visit? narrow inside logic mode reference none reports
  simp only [Option.bind_eq_bind]
  rw [← Option.bind_assoc, settled]
  exact setField?_of_narrow narrow inside report _

theorem select?_eq (supported : layout.Supported) (logic : Logic) (mode : Mode)
    (reference : Word) (reports : List Word) :
    layout.select? logic mode reference reports =
      some (layout.fill 0
        (fun index => (qualify? logic mode reference none
          (reports.map (layout.field · index))).getD (.ones layout.fieldBits))
        (List.range tiers)) :=
  select?_of_narrow supported.narrow logic mode reference reports

end Selection

section Tiers

theorem forall_tier {property : Nat → Prop} (holds : ∀ index < tiers, property (index + 1))
    (tier : Nat) (first : 1 ≤ tier) (last : tier ≤ tiers) : property tier := by
  rw [← Nat.sub_add_cancel first]
  exact holds (tier - 1) (by omega)

/-- The times of some tiers are set. The others are kept, and the bits above the fields too. -/
structure Revises (layout : Layout) (chosen : Nat → Prop) (time : Nat) (before after : Word) :
    Prop where
  set : ∀ tier, 1 ≤ tier → tier ≤ tiers → chosen tier → layout.reached? after tier = some time
  kept : ∀ tier, 1 ≤ tier → tier ≤ tiers → ¬chosen tier →
    layout.time? after tier = layout.time? before tier
  above : ∀ bit, tiers * layout.fieldBits ≤ bit → after.getLsbD bit = before.getLsbD bit

theorem revises_fill (supported : layout.Supported) {indices : List Nat}
    (inside : ∀ index ∈ indices, index < tiers) {chosen : Nat → Prop}
    (named : ∀ index < tiers, chosen (index + 1) ↔ index ∈ indices) (report time : Word) :
    layout.Revises chosen (time.toNat % 2 ^ layout.fieldBits) report
      (layout.fill report (fun _ => time) indices) := by
  refine ⟨?_, ?_, ?_⟩
  · apply forall_tier
    intro index last isChosen
    rw [reached?_eq supported last, field_fill supported inside last,
      if_pos ((named index last).mp isChosen), Word.toNat_and_ones supported.fieldBits_le]
  · apply forall_tier
    intro index last notChosen
    rw [time?_eq supported last, time?_eq supported last, field_fill supported inside last,
      if_neg (mt (named index last).mpr notChosen)]
  · intro bit above
    exact getLsbD_fill_above supported inside report _ above

theorem revises_setField (supported : layout.Supported) (inside : index < tiers)
    (report time : Word) :
    ∃ after, layout.setField? report index time = some after ∧
      layout.Revises (· = index + 1) (time.toNat % 2 ^ layout.fieldBits) report after := by
  have inside' : ∀ other ∈ [index], other < tiers := by simpa using inside
  refine ⟨_, setField?_of_narrow supported.narrow inside report time, ?_⟩
  exact revises_fill supported inside' (fun other _ => by simp) report time

theorem revises_setTiers (supported : layout.Supported) (report time : Word) (first last : Nat) :
    ∃ after, layout.setTiers? report first last time = some after ∧
      layout.Revises (fun tier => first < tier ∧ tier ≤ min last tiers)
        (time.toNat % 2 ^ layout.fieldBits) report after := by
  refine ⟨_, setTiers?_eq supported report first last time, ?_⟩
  apply revises_fill supported
  · intro index member
    rw [List.mem_range'_1] at member
    omega
  · intro index _
    rw [List.mem_range'_1]
    omega

theorem isSome_time? (supported : layout.Supported) (report : Word) (tier : Nat) :
    (layout.time? report tier).isSome := by
  cases tier with
  | zero => rfl
  | succ index =>
      rcases Nat.lt_or_ge index tiers with inside | past
      · rw [time?_eq supported inside, Option.isSome_some]
      · simp [time?, Nat.lt_succ_of_le past, mask?_of_narrow supported.narrow]

/--
The fields of a report are independent of each other. Writing into one field, or into
those of a range of tiers, sets the times of these tiers, cut to the width of a field,
and leaves all other bits as they are. Neither writing into a range nor reading a tier
ever goes beyond the word, whatever the bounds of the range and the number of the tier.
The report in which no tier was reached has all bits of its fields set.
-/
theorem tier_fields_are_independent {fieldBits : Nat} {order : FieldOrder} {layout : Layout}
    (made : ofWidth? fieldBits order = some layout) (report time : Word) :
    (∀ index < tiers, ∃ after, layout.setField? report index time = some after ∧
      layout.Revises (· = index + 1) (time.toNat % 2 ^ fieldBits) report after) ∧
    (∀ first last, ∃ after, layout.setTiers? report first last time = some after ∧
      layout.Revises (fun tier => first < tier ∧ tier ≤ min last tiers)
        (time.toNat % 2 ^ fieldBits) report after) ∧
    (∀ tier, (layout.time? report tier).isSome) ∧
    ∃ never, layout.never? = some never ∧ never.toNat = 2 ^ (tiers * fieldBits) - 1 ∧
      ∀ tier, 1 ≤ tier → tier ≤ tiers → layout.reached? never tier = some (2 ^ fieldBits - 1) := by
  rcases width_of_ofWidth? made with ⟨rfl, supported⟩
  refine ⟨?_, ?_, ?_, ?_⟩
  · intro index inside
    exact revises_setField supported inside report time
  · intro first last
    exact revises_setTiers supported report time first last
  · intro tier
    exact isSome_time? supported report tier
  · refine ⟨_, never?_eq supported, Word.toNat_ones supported.tiers_mul_le, ?_⟩
    apply forall_tier
    intro index inside
    rw [reached?_eq supported inside, field_ones supported inside,
      Word.toNat_ones supported.fieldBits_le]

/-- Times wider than a field and ranges past the last tier, below bits that are no field's. -/
theorem tier_fields_are_independent_narrow :
    let layout : Layout := ⟨16, .highestFirst⟩
    (∃ after, layout.setField? .largest 0 0x1abcd = some after ∧
      layout.reached? after 1 = some 0xabcd ∧ layout.time? after 2 = layout.time? .largest 2 ∧
      after.getLsbD 128 = true) ∧
    (∃ after, layout.setTiers? .largest 6 (2 ^ 64 - 1) 0x1abcd = some after ∧
      layout.reached? after 8 = some 0xabcd ∧ layout.time? after 6 = layout.time? .largest 6) ∧
    (layout.time? .largest (2 ^ 64 - 1)).isSome ∧
    ∃ never, layout.never? = some never ∧ never.toNat = 2 ^ 128 - 1 ∧
      layout.reached? never 8 = some 0xffff := by
  intro layout
  have made : ofWidth? 16 .highestFirst = some layout := rfl
  rcases tier_fields_are_independent made .largest 0x1abcd with ⟨single, range, reads, never⟩
  rcases single 0 (by decide) with ⟨one, written, revised⟩
  rcases range 6 (2 ^ 64 - 1) with ⟨two, rangeWritten, rangeRevised⟩
  rcases never with ⟨all, found, number, times⟩
  refine ⟨⟨one, written, ?_, ?_, ?_⟩, ⟨two, rangeWritten, ?_, ?_⟩, reads _, ⟨all, found, ?_, ?_⟩⟩
  · exact revised.set 1 (by decide) (by decide) rfl
  · exact revised.kept 2 (by decide) (by decide) (by decide)
  · exact (revised.above 128 (by decide)).trans (by decide)
  · exact rangeRevised.set 8 (by decide) (by decide) (by decide)
  · exact rangeRevised.kept 6 (by decide) (by decide) (by decide)
  · exact number
  · exact times 8 (by decide) (by decide)

end Tiers

end Layout

end StackCert
