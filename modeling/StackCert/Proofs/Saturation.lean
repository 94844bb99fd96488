import StackCert.Proofs.Arithmetic

/-!
# Saturating arithmetic clamps the exact result

The saturating reducers bring each intermediate result back among the words. Over
unbounded numbers it is enough to do so once, at the end, if a clamped total goes on
to the same clamped results as the exact one (`Absorbs`). Sums stay at the bound once
they are there. A product can leave it again, but only by a zero, and then the exact
product is zero as well. Differences need no clamp of their own, because natural
numbers stop at zero by themselves.

The results no longer depend on the order of the values, where the exact ones do not,
and they agree with checked arithmetic wherever that has a result.
-/

namespace StackCert

/-- A clamp that may be applied at every step of a fold or only at its end. -/
structure Absorbs (clamp : Nat → Nat) (exact : Nat → Nat → Nat) : Prop where
  again : ∀ number, clamp (clamp number) = clamp number
  step : ∀ total next, clamp (exact (clamp total) next) = clamp (exact total next)

theorem Absorbs.foldl {clamp : Nat → Nat} {exact : Nat → Nat → Nat}
    (absorbs : Absorbs clamp exact) (total : Nat) (rest : List Nat) :
    clamp (rest.foldl exact (clamp total)) = clamp (rest.foldl exact total) := by
  induction rest generalizing total with
  | nil => exact absorbs.again total
  | cons next rest ih =>
      calc clamp (rest.foldl exact (exact (clamp total) next))
          = clamp (rest.foldl exact (clamp (exact (clamp total) next))) := (ih _).symm
        _ = clamp (rest.foldl exact (clamp (exact total next))) := by rw [absorbs.step]
        _ = clamp (rest.foldl exact (exact total next)) := ih _

theorem absorbs_add (bound : Nat) : Absorbs (min bound) (· + ·) := by
  constructor
  · intro number
    omega
  · intro total next
    omega

theorem absorbs_mul (bound : Nat) : Absorbs (min bound) (· * ·) := by
  constructor
  · intro number
    omega
  · intro total next
    rcases Nat.le_total total bound with within | beyond
    · rw [Nat.min_eq_right within]
    -- beyond the bound only a zero leads back, and it does so for both totals
    rw [Nat.min_eq_left beyond]
    cases next with
    | zero => rfl
    | succ next =>
        have stays : bound ≤ bound * (next + 1) := Nat.le_mul_of_pos_right _ next.succ_pos
        have grows : bound * (next + 1) ≤ total * (next + 1) := Nat.mul_le_mul_right _ beyond
        rw [Nat.min_eq_left stays, Nat.min_eq_left (Nat.le_trans stays grows)]

namespace Word

theorem toNat_largest : largest.toNat = 2 ^ 256 - 1 := BitVec.toNat_allOnes

theorem min_toNat (word : Word) : min (2 ^ 256 - 1) word.toNat = word.toNat :=
  Nat.min_eq_right (Nat.le_sub_one_of_lt word.isLt)

/-- An operation that is exact up to the largest word is clamped by it. -/
theorem toNat_getD_largest {operation? : Word → Word → Option Word} {exact : Nat → Nat → Nat}
    (computes : Computes operation? (fun left right => exact left right < 2 ^ 256) exact)
    (left right : Word) :
    ((operation? left right).getD largest).toNat =
      min (2 ^ 256 - 1) (exact left.toNat right.toNat) := by
  by_cases small : exact left.toNat right.toNat < 2 ^ 256
  · rcases computes.value small with ⟨result, found, same⟩
    rw [found, Option.getD_some, same]
    omega
  · rw [computes.missing small, Option.getD_none, toNat_largest]
    omega

theorem toNat_saturatingSub (left right : Word) :
    (left.saturatingSub right).toNat = left.toNat - right.toNat := by
  unfold saturatingSub
  by_cases enough : right.toNat ≤ left.toNat
  · rcases computes_sub.value enough with ⟨result, found, same⟩
    rw [found, Option.getD_some, same]
  · rw [computes_sub.missing enough, Option.getD_none, Nat.sub_eq_zero_of_le (by omega)]
    rfl

/-- Clamping at every step is clamping once. -/
theorem toNat_foldl {operation : Word → Word → Word} {clamp : Nat → Nat}
    {exact : Nat → Nat → Nat} (absorbs : Absorbs clamp exact)
    (keeps : ∀ word : Word, clamp word.toNat = word.toNat)
    (clamps : ∀ left right, (operation left right).toNat = clamp (exact left.toNat right.toNat))
    (first : Word) (rest : List Word) :
    (rest.foldl operation first).toNat =
      clamp ((rest.map BitVec.toNat).foldl exact first.toNat) := by
  induction rest generalizing first with
  | nil => exact (keeps first).symm
  | cons next rest ih =>
      rw [List.foldl_cons, ih, clamps, absorbs.foldl]
      rfl

end Word

namespace Reducer

/-- The checked counterpart of a saturating reducer. -/
def checked? : Reducer → Option Reducer
  | .saturatingAdd => some .add
  | .saturatingSub => some .sub
  | .saturatingMul => some .mul
  | _ => none

theorem fold_ok (operation : Word → Word → Word) (first : Word) (rest : List Word) :
    fold (fun left right => .ok (operation left right)) (first :: rest) =
      .ok (rest.foldl operation first) :=
  List.foldlM_pure

/-- A default is not used by a fold that succeeds without one. -/
theorem fold_getD {operation? : Word → Word → Option Word} {failure : Failure}
    {words : List Word} {result : Word} (default : Word)
    (folded : fold (fun left right => valueOr failure (operation? left right)) words =
      .ok result) :
    fold (fun left right => .ok ((operation? left right).getD default)) words = .ok result := by
  cases words with
  | nil => cases folded
  | cons first rest =>
      rw [fold_ok]
      induction rest generalizing first with
      | nil => exact folded
      | cons next rest ih =>
          cases found : operation? first next with
          | none =>
              rw [fold_of_none found] at folded
              cases folded
          | some between =>
              rw [fold_of_some found] at folded
              rw [List.foldl_cons, found]
              exact ih between folded

theorem combine_of_checked? {reducer checked : Reducer} {layout : Layout} {operand : UInt8}
    {words : List Word} {result : Word} (counterpart : reducer.checked? = some checked)
    (combined : checked.combine layout operand words = .ok result) :
    reducer.combine layout operand words = .ok result := by
  cases reducer with
  | saturatingAdd | saturatingSub | saturatingMul =>
      cases counterpart
      exact fold_getD _ combined
  | _ => cases counterpart

theorem arity_of_checked? {reducer checked : Reducer} {operand : UInt8} {count : Nat}
    (counterpart : reducer.checked? = some checked) (isCount : operand.toNat = count + 1) :
    reducer.arity operand = .ok (count + 1) ∧ checked.arity operand = .ok (count + 1) := by
  cases reducer with
  | saturatingAdd | saturatingSub | saturatingMul =>
      cases counterpart
      exact ⟨arity_of_count isCount, arity_of_count isCount⟩
  | _ => cases counterpart

end Reducer

namespace Machine

variable {machine other : Machine} {frame : Frame} {reducer reducer' : Reducer} {operand : UInt8}
  {kept : List Word} {number : Nat}

theorem Yields.perform_eq (yields : machine.Yields frame reducer operand kept number)
    (yields' : other.Yields frame reducer' operand kept number)
    (limit : other.stack.limit = machine.stack.limit) :
    other.perform frame (.reduce reducer') operand =
      machine.perform frame (.reduce reducer) operand := by
  rcases yields with ⟨stack, result, isNumber, behind, stackLimit, performed, _⟩
  rcases yields' with ⟨stack', result', isNumber', behind', stackLimit', performed', _⟩
  have sameResult : result' = result := BitVec.eq_of_toNat_eq (isNumber'.trans isNumber.symm)
  have sameStack : stack' = stack := by
    apply Stack.ext_toList
    · rw [behind', behind, sameResult]
    · rw [stackLimit', stackLimit, limit]
  rw [performed', performed, sameStack]

section Values

variable {first : Word} {rest : List Word}

/-- A reducer that clamps at every step yields the clamped result. -/
theorem yields_of_clamps {operation : Word → Word → Word} {clamp : Nat → Nat}
    {exact : Nat → Nat → Nat} (absorbs : Absorbs clamp exact)
    (keeps : ∀ word : Word, clamp word.toNat = word.toNat)
    (clamps : ∀ left right, (operation left right).toNat = clamp (exact left.toNat right.toNat))
    (counted : reducer.arity operand = .ok (rest.length + 1))
    (values : machine.stack.toList = kept ++ first :: rest)
    (folds : reducer.combine machine.layout operand (first :: rest) =
      Reducer.fold (fun left right => .ok (operation left right)) (first :: rest)) :
    machine.Yields frame reducer operand kept
      (clamp ((rest.map BitVec.toNat).foldl exact first.toNat)) := by
  rw [← Word.toNat_foldl absorbs keeps clamps]
  apply yields_of_combine counted values
  rw [folds, Reducer.fold_ok]

theorem yields_saturatingAdd (values : machine.stack.toList = kept ++ first :: rest)
    (count : operand.toNat = rest.length + 1) :
    machine.Yields frame .saturatingAdd operand kept
      (min (2 ^ 256 - 1) ((first :: rest).map BitVec.toNat).sum) := by
  rw [List.map_cons, List.sum_cons, ← foldl_add_eq]
  exact yields_of_clamps (absorbs_add _) Word.min_toNat
    (Word.toNat_getD_largest Word.computes_add) (Reducer.arity_of_count count) values rfl

theorem yields_saturatingMul (values : machine.stack.toList = kept ++ first :: rest)
    (count : operand.toNat = rest.length + 1) :
    machine.Yields frame .saturatingMul operand kept
      (min (2 ^ 256 - 1) ((first :: rest).map BitVec.toNat).prod) := by
  rw [List.map_cons, List.prod_cons, ← foldl_mul_eq]
  exact yields_of_clamps (absorbs_mul _) Word.min_toNat
    (Word.toNat_getD_largest Word.computes_mul) (Reducer.arity_of_count count) values rfl

theorem yields_saturatingSub (values : machine.stack.toList = kept ++ first :: rest)
    (count : operand.toNat = rest.length + 1) :
    machine.Yields frame .saturatingSub operand kept
      (first.toNat - (rest.map BitVec.toNat).sum) := by
  rw [← foldl_sub_eq]
  have absorbs : Absorbs id (· - ·) := ⟨fun _ => rfl, fun _ _ => rfl⟩
  exact yields_of_clamps absorbs (fun _ => rfl) Word.toNat_saturatingSub
    (Reducer.arity_of_count count) values rfl

/-- A saturating reducer does what its checked counterpart does, if that goes on. -/
theorem perform_of_checked? {checked : Reducer} {stack : Stack}
    (values : machine.stack.toList = kept ++ first :: rest)
    (count : operand.toNat = rest.length + 1) (counterpart : reducer.checked? = some checked)
    (performed : machine.perform frame (.reduce checked) operand = .next stack) :
    machine.perform frame (.reduce reducer) operand = .next stack := by
  rcases Reducer.arity_of_checked? counterpart count with ⟨counted, checkedCounted⟩
  cases combined : checked.combine machine.layout operand (first :: rest) with
  | error failure =>
      have declines : machine.Declines frame checked operand kept failure :=
        declines_of_combine checkedCounted values combined
      rw [declines.1] at performed
      cases performed
  | ok result =>
      have yields : machine.Yields frame checked operand kept result.toNat :=
        yields_of_combine checkedCounted values combined
      rw [← performed]
      apply yields.perform_eq _ rfl
      exact yields_of_combine counted values (Reducer.combine_of_checked? counterpart combined)

/-- Sums and products are the same for the values in any order. -/
theorem perform_of_perm {first' : Word} {rest' : List Word}
    (values : machine.stack.toList = kept ++ first :: rest)
    (values' : other.stack.toList = kept ++ first' :: rest')
    (limit : other.stack.limit = machine.stack.limit)
    (count : operand.toNat = rest.length + 1) (shuffle : (first' :: rest').Perm (first :: rest))
    (commutes : reducer ∈ [Reducer.saturatingAdd, .saturatingMul]) :
    other.perform frame (.reduce reducer) operand =
      machine.perform frame (.reduce reducer) operand := by
  have count' : operand.toNat = rest'.length + 1 := count.trans shuffle.length_eq.symm
  have numbers := shuffle.map BitVec.toNat
  simp only [List.mem_cons, List.not_mem_nil, or_false] at commutes
  rcases commutes with rfl | rfl
  · apply (yields_saturatingAdd values count).perform_eq _ limit
    rw [← numbers.sum_nat]
    exact yields_saturatingAdd values' count'
  · apply (yields_saturatingMul values count).perform_eq _ limit
    rw [← numbers.prod_nat]
    exact yields_saturatingMul values' count'

end Values

/--
The saturating reducers over values on top of a stack, with their number as operand.
They always have a result: the sum and the product, or the largest word if that is
smaller, and the difference between the first value and the sum of the others, or
zero if that is larger. Where checked arithmetic goes on, they do the same. Sums and
products are the same for the values in any order.
-/
theorem saturating_reducers_clamp (machine : Machine) (frame : Frame) {operand : UInt8}
    {kept : List Word} {first : Word} {rest : List Word}
    (values : machine.stack.toList = kept ++ first :: rest)
    (count : operand.toNat = rest.length + 1) :
    let head := first.toNat
    let tail := rest.map BitVec.toNat
    machine.Yields frame .saturatingAdd operand kept (min (2 ^ 256 - 1) (head + tail.sum)) ∧
    machine.Yields frame .saturatingMul operand kept (min (2 ^ 256 - 1) (head * tail.prod)) ∧
    machine.Yields frame .saturatingSub operand kept (max 0 ((head : Int) - tail.sum)).toNat ∧
    (∀ reducer checked stack, Reducer.checked? reducer = some checked →
      machine.perform frame (.reduce checked) operand = .next stack →
      machine.perform frame (.reduce reducer) operand = .next stack) ∧
    ∀ reducer ∈ [Reducer.saturatingAdd, .saturatingMul], ∀ (shuffled : Stack) (words : List Word),
      shuffled.limit = machine.stack.limit → shuffled.toList = kept ++ words →
      words.Perm (first :: rest) →
      { machine with stack := shuffled }.perform frame (.reduce reducer) operand =
        machine.perform frame (.reduce reducer) operand := by
  intro head tail
  refine ⟨?_, ?_, ?_, ?_, ?_⟩
  · exact yields_saturatingAdd values count
  · exact yields_saturatingMul values count
  · have truncated : (max 0 ((head : Int) - tail.sum)).toNat = head - tail.sum := by omega
    rw [truncated]
    exact yields_saturatingSub values count
  · intro reducer checked stack counterpart performed
    exact perform_of_checked? values count counterpart performed
  · intro reducer commutes shuffled words limit values' shuffle
    cases words with
    | nil => cases shuffle.length_eq
    | cons first' rest' => exact perform_of_perm values values' limit count shuffle commutes

/-- A zero takes a product back from the bound, wherever it stands. -/
theorem saturating_reducers_clamp_zero :
    let frame : Frame := ⟨0, 0, 1, 1⟩
    let machine : Machine :=
      { Machine.start ⟨#[#[0x1a, 3]], #[]⟩ {} 0 1 4 .standard with
        frames := [frame], stack := ⟨#[9, .largest, 2, 0], 4, by decide⟩ }
    let shuffled : Stack := ⟨#[9, 0, .largest, 2], 4, by decide⟩
    machine.Yields frame .saturatingMul 3 [9] 0 ∧
      machine.Yields frame .saturatingAdd 3 [9] (2 ^ 256 - 1) ∧
      { machine with stack := shuffled }.perform frame (.reduce .saturatingMul) 3 =
        machine.perform frame (.reduce .saturatingMul) 3 ∧
      machine.perform frame (.reduce .saturatingSub) 3 =
        machine.perform frame (.reduce .sub) 3 := by
  intro frame machine shuffled
  have values : machine.stack.toList = [9] ++ Word.largest :: [2, 0] := rfl
  have count : (3 : UInt8).toNat = ([2, 0] : List Word).length + 1 := rfl
  rcases saturating_reducers_clamp machine frame values count with
    ⟨add, mul, _, agrees, commutes⟩
  have shuffle : [0, Word.largest, 2].Perm [Word.largest, 2, 0] := by decide
  have subtracts : machine.perform frame (.reduce .sub) 3 =
      .next ⟨#[9, .ofNat 256 (2 ^ 256 - 3)], 4, by decide⟩ := by decide +kernel
  refine ⟨mul, add, ?_, ?_⟩
  · exact commutes .saturatingMul (by decide) shuffled _ rfl rfl shuffle
  · rw [subtracts]
    exact agrees .saturatingSub .sub _ rfl subtracts

end Machine

end StackCert
