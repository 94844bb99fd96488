import StackCert.Failure
import StackCert.Word

/-!
# Stacks

A stack of words with a limit on its height. Words are listed bottom first, so
that the last word is the top. The height never exceeds the limit.
-/

namespace StackCert

/-- Words, bottom first, at most `limit` of them. -/
structure Stack where
  words : Array Word
  limit : Nat
  size_le_limit : words.size ≤ limit
deriving DecidableEq, Repr

namespace Stack

/-- The stack without values. -/
def empty (limit : Nat) : Stack := ⟨#[], limit, Nat.zero_le limit⟩

/-- The number of values. -/
def size (stack : Stack) : Nat := stack.words.size

/-- The values, bottom first. -/
def toList (stack : Stack) : List Word := stack.words.toList

/-- Puts a value on top, if the limit leaves room for it. -/
def push (stack : Stack) (word : Word) : Except Failure Stack :=
  if room : stack.words.size < stack.limit then
    .ok ⟨stack.words.push word, stack.limit, by
      rw [Array.size_push]
      exact room⟩
  else .error .stackOverflow

/-- Removes the given number of values from the top. -/
def discard (stack : Stack) (count : Nat) : Except Failure Stack :=
  if count ≤ stack.words.size then
    .ok ⟨stack.words.take (stack.words.size - count), stack.limit, by
      have := stack.size_le_limit
      simp only [Array.take_eq_extract, Array.size_extract]
      omega⟩
  else .error .stackUnderflow

/-- The value on top and the stack below it. -/
def pop (stack : Stack) : Except Failure (Word × Stack) :=
  match stack.words.back? with
  | none => .error .stackUnderflow
  | some word =>
      .ok (word, ⟨stack.words.pop, stack.limit, by
        have := stack.size_le_limit
        simp only [Array.size_pop]
        omega⟩)

/-- The value at a depth, the top at depth zero. -/
def peek (stack : Stack) (depth : Nat) : Except Failure Word :=
  if _ : depth < stack.words.size then .ok stack.words[stack.words.size - 1 - depth]
  else .error .stackUnderflow

/-- The value at an index counted from the bottom. -/
def get (stack : Stack) (index : Nat) : Except Failure Word :=
  match stack.words[index]? with
  | some word => .ok word
  | none => .error .operandOutOfBounds

/-- The given number of values on top, bottom first. -/
def top (stack : Stack) (count : Nat) : Except Failure (List Word) :=
  if count ≤ stack.words.size then
    .ok (stack.words.extract (stack.words.size - count) stack.words.size).toList
  else .error .stackUnderflow

/-- Replaces the given number of values on top by one that is computed from them first. -/
def reduce (stack : Stack) (count : Nat) (combine : List Word → Except Failure Word) :
    Except Failure Stack := do
  let words ← stack.top count
  let result ← combine words
  let below ← stack.discard count
  below.push result

@[simp]
theorem length_toList (stack : Stack) : stack.toList.length = stack.size := rfl

theorem ext_toList {left right : Stack} (words : left.toList = right.toList)
    (limit : left.limit = right.limit) : left = right := by
  obtain ⟨leftWords, leftLimit, _⟩ := left
  obtain ⟨rightWords, rightLimit, _⟩ := right
  have sameWords : leftWords = rightWords := Array.toList_inj.mp words
  cases sameWords
  cases limit
  rfl

theorem push_eq_ok_iff {stack after : Stack} {word : Word} :
    stack.push word = .ok after ↔
      stack.size < stack.limit ∧ after.toList = stack.toList ++ [word] ∧
        after.limit = stack.limit := by
  unfold push
  by_cases room : stack.words.size < stack.limit
  · simp only [room, ↓reduceDIte, Except.ok.injEq, size, true_and]
    constructor
    · rintro rfl
      exact ⟨by simp [toList], rfl⟩
    · rintro ⟨words, limit⟩
      exact ext_toList (by simpa [toList] using words.symm) limit.symm
  · simp [room, size]

theorem push_eq_error_iff {stack : Stack} {word : Word} {failure : Failure} :
    stack.push word = .error failure ↔
      stack.limit = stack.size ∧ failure = .stackOverflow := by
  have bound := stack.size_le_limit
  unfold push
  by_cases room : stack.words.size < stack.limit
  · simp only [room, ↓reduceDIte, reduceCtorEq, false_iff, size]
    omega
  · simp only [room, ↓reduceDIte, Except.error.injEq, size]
    constructor
    · rintro rfl
      exact ⟨by omega, rfl⟩
    · rintro ⟨_, rfl⟩
      rfl

theorem pop_eq_ok_iff {stack after : Stack} {word : Word} :
    stack.pop = .ok (word, after) ↔
      stack.toList = after.toList ++ [word] ∧ after.limit = stack.limit := by
  obtain ⟨⟨words⟩, limit, bound⟩ := stack
  obtain ⟨⟨afterWords⟩, afterLimit, afterBound⟩ := after
  rcases List.eq_nil_or_concat words with rfl | ⟨below, last, rfl⟩
  · simp [pop, toList]
  · simp only [pop, toList, List.concat_eq_append, List.back?_toArray, List.getLast?_concat,
      List.pop_toArray, List.dropLast_concat, Except.ok.injEq, Prod.mk.injEq, Stack.mk.injEq,
      Array.mk.injEq]
    constructor
    · rintro ⟨rfl, rfl, rfl⟩
      exact ⟨rfl, rfl⟩
    · rintro ⟨words, rfl⟩
      have parts := List.append_inj' words rfl
      exact ⟨List.singleton_inj.mp parts.2, parts.1, rfl⟩

theorem discard_eq_ok_iff {stack after : Stack} {count : Nat} :
    stack.discard count = .ok after ↔
      count ≤ stack.size ∧ after.toList = stack.toList.take (stack.size - count) ∧
        after.limit = stack.limit := by
  unfold discard
  by_cases enough : count ≤ stack.words.size
  · simp only [enough, ↓reduceIte, Except.ok.injEq, size, true_and]
    constructor
    · rintro rfl
      exact ⟨by simp [toList], rfl⟩
    · rintro ⟨words, limit⟩
      exact ext_toList (by simpa [toList] using words.symm) limit.symm
  · simp [enough, size]

theorem top_eq_ok_iff {stack : Stack} {count : Nat} {words : List Word} :
    stack.top count = .ok words ↔
      count ≤ stack.size ∧ words = stack.toList.drop (stack.size - count) := by
  unfold top
  by_cases enough : count ≤ stack.words.size
  · simp only [enough, ↓reduceIte, Except.ok.injEq, size, true_and, toList]
    rw [Array.toList_extract, List.extract_eq_take_drop]
    rw [show stack.words.size - (stack.words.size - count) = count by omega]
    rw [List.take_of_length_le (by simp; omega)]
    exact eq_comm
  · simp [enough, size]

end Stack

end StackCert
