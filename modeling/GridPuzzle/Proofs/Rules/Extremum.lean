import Mathlib.Data.Int.Order.Basic
import Mathlib.Data.List.Lex
import Mathlib.Order.Bounds.Basic
import GridPuzzle.Proofs.Rules.Ground

/-!
Extreme values. Where an aggregate asks for the least of the numbers of some items, it binds its variables to the
numbers of an item that no other comes before, and to no numbers if there is no item. Where it ranges over single
numbers, it binds its variable to the extreme one of their set.
-/
namespace GridPuzzle

/-- The numbers as values. -/
def Value.nums (numbers : List Int) : List Value := numbers.map .num

namespace Value

@[simp] theorem nums_nil : nums [] = [] := rfl

@[simp] theorem nums_cons (number : Int) (numbers : List Int) :
    nums (number :: numbers) = .num number :: nums numbers := rfl

theorem precede_nums {first second : List Int} : Precede (nums first) (nums second) ↔ first ≤ second := by
  rw [← not_lt]
  induction first generalizing second with
  | nil => simp [Precede]
  | cons a first ih =>
    cases second with
    | nil => simp [Precede]
    | cons b second =>
      simp only [nums_cons, Precede, Below, ih, num.injEq, List.cons_lt_cons_iff]
      by_cases less : second < first
      · simp only [less, not_true_eq_false, and_false, or_false, and_true]
        omega
      · simp only [less, not_false_eq_true, and_true, and_false, or_false]
        omega

theorem precede_num {a b : Int} : Precede [.num a] [.num b] ↔ a ≤ b := by
  simp only [Precede, Below, num.injEq, and_true]
  omega

end Value

/-- Among the numbers of items, the least are those of an item that comes first. -/
theorem Extremum.least_attains {α : Type} {among : List Value → Prop} {candidate : α → Prop}
    {rank : α → List Int}
    (ranks : ∀ tuple, among tuple ↔ ∃ item, candidate item ∧ tuple = Value.nums (rank item))
    {values : List Value} (bound : values ≠ [.sup]) :
    Extremum.least.Attains among values ↔ ∃ item, candidate item ∧ values = Value.nums (rank item) ∧
      ∀ other, candidate other → rank item ≤ rank other := by
  have beyond : ¬ ((∀ other, ¬ among other) ∧ values = [.sup]) := fun both => bound both.2
  rw [Extremum.Attains, or_iff_left beyond, ranks]
  constructor
  · intro least
    obtain ⟨⟨item, isCandidate, rfl⟩, first⟩ := least
    refine ⟨item, isCandidate, rfl, fun other isOther => ?_⟩
    exact Value.precede_nums.mp (first _ ((ranks _).mpr ⟨other, isOther, rfl⟩))
  · intro least
    obtain ⟨item, isCandidate, rfl, first⟩ := least
    refine ⟨⟨item, isCandidate, rfl⟩, fun tuple isAmong => ?_⟩
    obtain ⟨other, isOther, rfl⟩ := (ranks tuple).mp isAmong
    exact Value.precede_nums.mpr (first other isOther)

/-- The number is the extreme one of a set. -/
def Extremum.Picks : Extremum → Set Int → Int → Prop
  | .least => IsLeast
  | .greatest => IsGreatest

namespace Extremum

variable {among : List Value → Prop} {numbers : Set Int}

section Single

variable (which : Extremum) (ranks : ∀ tuple, among tuple ↔ ∃ number ∈ numbers, tuple = [.num number])
include ranks

/-- Among single numbers, the extreme one is that of their set. -/
theorem attains_num (number : Int) : which.Attains among [.num number] ↔ which.Picks numbers number := by
  have single (a : Int) : among [.num a] ↔ a ∈ numbers := by
    simp only [ranks, List.cons.injEq, Value.num.injEq, and_true, exists_eq_right']
  have each (property : List Value → Prop) : (∀ tuple, among tuple → property tuple) ↔
      ∀ a ∈ numbers, property [.num a] := by
    constructor
    · exact fun all a member => all _ ((single a).mpr member)
    · intro all tuple isAmong
      obtain ⟨a, member, rfl⟩ := (ranks tuple).mp isAmong
      exact all a member
  cases which with
  | least =>
    have beyond : ¬ ((∀ other, ¬ among other) ∧ [Value.num number] = [.sup]) := fun both => nomatch both.2
    rw [Attains, or_iff_left beyond, single, each]
    simp only [Value.precede_num]
    exact Iff.rfl
  | greatest =>
    have beyond : ¬ ((∀ other, ¬ among other) ∧ [Value.num number] = [.inf]) := fun both => nomatch both.2
    rw [Attains, or_iff_left beyond, single, each]
    simp only [Value.precede_num]
    exact Iff.rfl

/-- What is extreme among some numbers is a number. -/
theorem exists_num_of_attains (nonempty : numbers.Nonempty) {value : Value}
    (attains : which.Attains among [value]) : ∃ number, value = .num number := by
  obtain ⟨number, member⟩ := nonempty
  have present : among [.num number] := (ranks _).mpr ⟨number, member, rfl⟩
  have isAmong : among [value] := by
    cases which with
    | least => exact attains.elim And.left fun both => absurd present (both.1 _)
    | greatest => exact attains.elim And.left fun both => absurd present (both.1 _)
  obtain ⟨found, _, same⟩ := (ranks _).mp isAmong
  exact ⟨found, (List.cons.inj same).1⟩

end Single

end Extremum

/-- Where an aggregate ranges over some numbers, its variable is the extreme one of them. -/
theorem Literal.extremum_holds_iff {world : World} {outer : List String} {binding : Binding} {target : String}
    {elements : List Element} {numbers : Set Int} (which : Extremum)
    (ranks : ∀ tuple, (∃ element ∈ elements, element.Yields world outer binding tuple) ↔
      ∃ number ∈ numbers, tuple = [.num number]) (nonempty : numbers.Nonempty) :
    (Literal.extremum [target] which elements).Holds world outer binding ↔
      ∃ number, binding target = .num number ∧ which.Picks numbers number := by
  rw [Literal.Holds, List.map_singleton]
  constructor
  · intro attains
    obtain ⟨number, bound⟩ := which.exists_num_of_attains ranks nonempty attains
    rw [bound, which.attains_num ranks] at attains
    exact ⟨number, bound, attains⟩
  · intro found
    obtain ⟨number, bound, picks⟩ := found
    rw [bound, which.attains_num ranks]
    exact picks

end GridPuzzle
