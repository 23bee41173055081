import Mathlib.Data.Set.Card
import GridPuzzle.Rules.Comparator
import GridPuzzle.Proofs.Rules.Ground

/-!
Counts. An aggregate that counts holds if there is a number of the items that its tuples stand for, one tuple for each,
and that number compares with the bound. So a constraint on it is broken by the numbers that its target does not accept.
-/
namespace GridPuzzle

/-- The relation between integers that a comparator stands for. -/
def Comparator.Compares : Comparator → Int → Int → Prop
  | .eq => (· = ·)
  | .ne => (· ≠ ·)
  | .lt => (· < ·)
  | .le => (· ≤ ·)
  | .gt => (· > ·)
  | .ge => (· ≥ ·)

theorem Comparator.holds_iff {comparator : Comparator} {a b : Int} :
    comparator.holds a b = true ↔ comparator.Compares a b := by
  cases comparator <;> exact decide_eq_true_iff

/-- The number is one that the target asks for. -/
def Target.Admits (number : Int) : Target → Prop
  | .exactly value => number = value
  | .compare comparator value => comparator.holds number value = true

instance (number : Int) : (target : Target) → Decidable (target.Admits number)
  | .exactly value => inferInstanceAs (Decidable (number = value))
  | .compare comparator value => inferInstanceAs (Decidable (comparator.holds number value = true))

theorem Target.forbidden_iff (target : Target) (number : Int) :
    target.forbidden.1.holds number target.forbidden.2 = true ↔ ¬ target.Admits number := by
  cases target with
  | exactly value => exact decide_eq_true_iff
  | compare comparator value => simp [forbidden, Admits, Comparator.holds_negate]

theorem Target.accepts_iff (target : Target) (number : Int) : target.accepts number = true ↔ target.Admits number := by
  rw [accepts, Bool.not_eq_true', ← Bool.not_eq_true, forbidden_iff, not_not]

theorem Target.accepts_eq_false_iff {target : Target} {number : Int} :
    target.accepts number = false ↔ target.forbidden.1.holds number target.forbidden.2 = true := by
  rw [accepts, Bool.not_eq_false']

/-- There is a number of the items, as they come to an end, and the target does not accept it. -/
def Target.Rejects {α : Type} (target : Target) (items : Set α) : Prop :=
  items.Finite ∧ target.accepts items.ncard = false

/-- Where the tuples stand for items, a count is that of the items. If these have no end, there is none. -/
theorem Literal.count_holds_iff_ncard {α : Type} {world : World} {outer : List String} {binding : Binding}
    {element : Element} {comparator : Comparator} {bound : Int} {items : Set α} {image : α → List Value}
    (injective : Function.Injective image)
    (ranges : ∀ tuple, element.Yields world outer binding tuple ↔ ∃ item ∈ items, tuple = image item) :
    (Literal.count element comparator bound).Holds world outer binding ↔
      items.Finite ∧ comparator.holds items.ncard bound = true := by
  by_cases finite : items.Finite
  · have distinct : (finite.toFinset.toList.map image).Nodup := (Finset.nodup_toList _).map injective
    have listed (tuple : List Value) : tuple ∈ finite.toFinset.toList.map image ↔
        element.Yields world outer binding tuple := by
      simp only [ranges, List.mem_map, Finset.mem_toList, Set.Finite.mem_toFinset, eq_comm]
    rw [Literal.count_holds_iff distinct listed, List.length_map, Finset.length_toList,
      ← Set.ncard_eq_toFinset_card items finite, and_iff_right finite]
  · refine iff_of_false (fun counted => ?_) fun both => finite both.1
    obtain ⟨tuples, _, listed, _⟩ := counted
    refine finite (Set.Finite.of_finite_image (tuples.finite_toSet.subset ?_) injective.injOn)
    rintro _ ⟨item, member, rfl⟩
    exact (listed _).mpr ((ranges _).mpr ⟨item, member, rfl⟩)

end GridPuzzle
