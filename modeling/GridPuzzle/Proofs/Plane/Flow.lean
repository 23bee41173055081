import Mathlib.Logic.Equiv.Basic
import GridPuzzle.Proofs.Plane.Link

/-!
Flows over a grid. One course tells through which sides cells are entered and another one through which they are left.
If they answer each other and no cell has more than one side of each, the cells flow in cycles; and a single cell that
is never entered is the start of a path to a single one that is never left.
-/
namespace GridPuzzle.Course

variable {rows cols : Nat} {course entering leaving : Course rows cols} {matched : Int × Int → Prop}
  {a b c : Int × Int}

theorem side_unique (few : course.degree a.1 a.2 ≤ 1) {side side' : Side}
    (passed : course.passes a.1 a.2 side = true) (passed' : course.passes a.1 a.2 side' = true) : side = side' := by
  rcases Nat.le_one_iff_eq_zero_or_eq_one.mp few with none | one
  · exact absurd passed (Bool.eq_false_iff.mp (degree_eq_zero_iff.mp none side))
  · obtain ⟨only, same⟩ := exists_side one
    rw [(same side).mp passed, (same side').mp passed']

theorem exists_passed (some : course.degree a.1 a.2 ≠ 0) : ∃ side, course.passes a.1 a.2 side = true := by
  by_contra none
  simp only [not_exists, Bool.not_eq_true] at none
  exact some (degree_eq_zero_iff.mpr none)

def Stops (course : Course rows cols) (matched : Int × Int → Prop) (cell : Int × Int) : Prop :=
  OnGrid rows cols matched cell ∧ course.degree cell.1 cell.2 = 0

/-- Only matched cells are entered and left, never through one and the same side, and what leaves a cell enters the
cell behind that side, as what enters it left that cell. -/
structure Flows (entering leaving : Course rows cols) (matched : Int × Int → Prop) : Prop where
  enters : ∀ (cell : Int × Int) side, entering.passes cell.1 cell.2 side = true → matched cell
  leaves : ∀ (cell : Int × Int) side, leaving.passes cell.1 cell.2 side = true → matched cell
  parted : ∀ (cell : Int × Int) side, entering.passes cell.1 cell.2 side = true →
    ¬ leaving.passes cell.1 cell.2 side = true
  back : ∀ (cell : Int × Int) side, entering.passes cell.1 cell.2 side = true →
    leaving.passes (side.behind cell).1 (side.behind cell).2 side.opposite = true
  onward : ∀ (cell : Int × Int) side, leaving.passes cell.1 cell.2 side = true →
    entering.passes (side.behind cell).1 (side.behind cell).2 side.opposite = true

/-- Matched cells are entered once and left once or, where a path is asked for, at most so, and just one of them is
not entered and just one other is not left. -/
structure Conducts (entering leaving : Course rows cols) (matched : Int × Int → Prop) (path : Bool) : Prop where
  flows : entering.Flows leaving matched
  once : path = false → ∀ course ∈ [entering, leaving], ∀ cell, OnGrid rows cols matched cell →
    course.degree cell.1 cell.2 = 1
  ended : path = true → ∀ course ∈ [entering, leaving],
    (∀ cell, OnGrid rows cols matched cell → course.degree cell.1 cell.2 ≤ 1) ∧
      ∃ only, ∀ cell, course.Stops matched cell ↔ cell = only
  apart : path = true → ∀ cell, entering.Stops matched cell → ¬ leaving.Stops matched cell

namespace Flows

variable (flows : entering.Flows leaving matched)
include flows

theorem links_of_entered {side : Side} (entered : entering.passes a.1 a.2 side = true) :
    leaving.Links (side.behind a) a :=
  ⟨side.opposite, flows.back a side entered, (side.behind_opposite a).symm⟩

theorem exists_entered (links : leaving.Links a b) :
    ∃ side, entering.passes b.1 b.2 side = true ∧ a = side.behind b := by
  obtain ⟨side, passed, rfl⟩ := links
  exact ⟨side.opposite, flows.onward a side passed, (side.behind_opposite a).symm⟩

theorem links_matched (links : leaving.Links a b) :
    OnGrid rows cols matched a ∧ OnGrid rows cols matched b := by
  obtain ⟨side, entered, _⟩ := flows.exists_entered links
  obtain ⟨side', passed, _⟩ := links
  exact ⟨⟨leaving.inside _ _ _ passed, flows.leaves a side' passed⟩, entering.inside _ _ _ entered,
    flows.enters b side entered⟩

theorem oneWay (links : leaving.Links a b) : ¬ leaving.Links b a := by
  intro back
  obtain ⟨side, entered, same⟩ := flows.exists_entered links
  obtain ⟨side', passed, same'⟩ := back
  have one : side = side' := Side.behind_injective (same.symm.trans same')
  exact flows.parted b side entered (one ▸ passed)

theorem left_unique (few : ∀ cell : Int × Int, entering.degree cell.1 cell.2 ≤ 1) :
    Relator.LeftUnique leaving.Links := by
  intro a b c first second
  obtain ⟨side, entered, rfl⟩ := flows.exists_entered first
  obtain ⟨side', entered', rfl⟩ := flows.exists_entered second
  rw [side_unique (few c) entered entered']

omit flows in
theorem right_unique (few : ∀ cell : Int × Int, leaving.degree cell.1 cell.2 ≤ 1) :
    Relator.RightUnique leaving.Links := by
  intro a b c first second
  obtain ⟨side, passed, rfl⟩ := first
  obtain ⟨side', passed', rfl⟩ := second
  rw [side_unique (few a) passed passed']

theorem exists_source (some : entering.degree b.1 b.2 ≠ 0) : ∃ a, leaving.Links a b := by
  obtain ⟨side, entered⟩ := exists_passed some
  exact ⟨side.behind b, flows.links_of_entered entered⟩

omit flows in
theorem exists_target (some : leaving.degree a.1 a.2 ≠ 0) : ∃ b, leaving.Links a b := by
  obtain ⟨side, passed⟩ := exists_passed some
  exact ⟨side.behind a, side, passed, rfl⟩

theorem sealed_cells {cells : Finset (Int × Int)}
    (member : ∀ cell, cell ∈ cells ↔ OnGrid rows cols matched cell) :
    Sealed leaving.Links cells := by
  intro a b links
  rw [member, member]
  exact iff_of_true (flows.links_matched links).1 (flows.links_matched links).2

theorem degrees_le
    (few : ∀ cell, OnGrid rows cols matched cell →
      entering.degree cell.1 cell.2 ≤ 1 ∧ leaving.degree cell.1 cell.2 ≤ 1) (cell : Int × Int) :
    entering.degree cell.1 cell.2 ≤ 1 ∧ leaving.degree cell.1 cell.2 ≤ 1 := by
  by_cases inside : OnGrid rows cols matched cell
  · exact few cell inside
  · -- other cells are neither entered nor left
    have none : entering.degree cell.1 cell.2 = 0 ∧ leaving.degree cell.1 cell.2 = 0 := by
      rw [degree_eq_zero_iff, degree_eq_zero_iff]
      constructor
      · intro side
        exact Bool.eq_false_iff.mpr fun passed =>
          inside ⟨entering.inside _ _ _ passed, flows.enters cell side passed⟩
      · intro side
        exact Bool.eq_false_iff.mpr fun passed =>
          inside ⟨leaving.inside _ _ _ passed, flows.leaves cell side passed⟩
    omega

private theorem exists_cycles {cells : Finset (Int × Int)} (closed : Sealed leaving.Links cells)
    (few : ∀ cell : Int × Int, entering.degree cell.1 cell.2 ≤ 1 ∧ leaving.degree cell.1 cell.2 ≤ 1)
    (entered : ∀ cell ∈ cells, entering.degree cell.1 cell.2 ≠ 0) :
    ∃ cycles, Splits (· ∈ cells) cycles ∧ ∀ cycle ∈ cycles, IsDirectedCycle leaving.Links cycle := by
  apply exists_splits cells closed
  intro left within nonempty closed
  obtain ⟨last, member⟩ := nonempty
  obtain ⟨items, cycle, kept⟩ := exists_directedCycle (flows.left_unique fun cell => (few cell).1)
    (right_unique fun cell => (few cell).2) closed
    (fun cell member => flows.exists_source (entered cell (within member))) (fun a b => flows.oneWay) member
  refine ⟨items, cycle, ?_, ⟨_, cycle.traces⟩, kept⟩
  rintro rfl
  cases cycle.long

/-- Where each matched cell is entered once and left once, going on is a permutation of these cells without short
cycles. -/
theorem exists_step (once : ∀ cell, OnGrid rows cols matched cell →
      entering.degree cell.1 cell.2 = 1 ∧ leaving.degree cell.1 cell.2 = 1) :
    ∃ step : Equiv.Perm {cell // OnGrid rows cols matched cell},
      (∀ a b, step a = b ↔ leaving.Links a b) ∧ (∀ a, step a ≠ a ∧ step (step a) ≠ a) ∧
      ∃ cycles, Splits (OnGrid rows cols matched) cycles ∧
        ∀ cycle ∈ cycles, IsDirectedCycle leaving.Links cycle := by
  have few := flows.degrees_le fun cell member =>
    ⟨(once cell member).1.le, (once cell member).2.le⟩
  have left := flows.left_unique fun cell => (few cell).1
  have right := right_unique fun cell => (few cell).2
  have target (a : {cell // OnGrid rows cols matched cell}) :
      ∃ b : {cell // OnGrid rows cols matched cell}, leaving.Links a b := by
    obtain ⟨b, links⟩ := exists_target (a := a.1) (by rw [(once a.1 a.2).2]; exact Nat.one_ne_zero)
    exact ⟨⟨b, (flows.links_matched links).2⟩, links⟩
  choose next links using target
  -- one to one as no cell is entered twice, and onto as each is entered
  have bijective : Function.Bijective next := by
    constructor
    · intro a b same
      exact Subtype.ext (left (links a) (same ▸ links b))
    · intro b
      obtain ⟨a, links'⟩ := flows.exists_source (b := b.1) (by rw [(once b.1 b.2).1]; exact Nat.one_ne_zero)
      refine ⟨⟨a, (flows.links_matched links').1⟩, Subtype.ext (right (links _) links')⟩
  refine ⟨Equiv.ofBijective next bijective, fun a b => ⟨fun same => same ▸ links a, fun links' => ?_⟩,
    fun a => ⟨fun same => ?_, fun same => ?_⟩, ?_⟩
  · exact Subtype.ext (right (links a) links')
  · have loop : leaving.Links (next a) (next a) := by
      have := links a
      rwa [show next a = a from same] at this ⊢
    exact flows.oneWay loop loop
  · have there := links a
    have back := links (next a)
    rw [show next (next a) = a from same] at back
    exact flows.oneWay there back
  · obtain ⟨cells, member⟩ := exists_cells rows cols matched
    obtain ⟨cycles, splits, isCycle⟩ := flows.exists_cycles (flows.sealed_cells member) few fun cell inCells => by
      rw [(once cell ((member cell).mp inCells)).1]
      exact Nat.one_ne_zero
    exact ⟨cycles, ⟨splits.distinct, fun cell => (member cell).symm.trans (splits.covers cell)⟩, isCycle⟩

/-- Where one matched cell is not entered and another one is not left, a path runs from the first to the second, and
all other matched cells lie on cycles. -/
theorem exists_path_cycles {start finish : Int × Int}
    (few : ∀ cell, OnGrid rows cols matched cell →
      entering.degree cell.1 cell.2 ≤ 1 ∧ leaving.degree cell.1 cell.2 ≤ 1)
    (starts : ∀ cell, entering.Stops matched cell ↔ cell = start)
    (finishes : ∀ cell, leaving.Stops matched cell ↔ cell = finish) :
    ∃ path cycles, Splits (OnGrid rows cols matched) (path :: cycles) ∧
      IsDirectedPath leaving.Links path ∧ path.head? = some start ∧ path.getLast? = some finish ∧
      ∀ cycle ∈ cycles, IsDirectedCycle leaving.Links cycle := by
  have few := flows.degrees_le few
  obtain ⟨cells, member⟩ := exists_cells rows cols matched
  have closed := flows.sealed_cells member
  have final : ∀ b, ¬ leaving.Links finish b := by
    intro b links
    obtain ⟨side, passed, _⟩ := links
    exact Bool.eq_false_iff.mp (degree_eq_zero_iff.mp ((finishes finish).mpr rfl).2 side) passed
  obtain ⟨first, rest, path, initial, ends, kept⟩ := exists_directedPath
    (flows.left_unique fun cell => (few cell).1) (right_unique fun cell => (few cell).2) closed
    ((member finish).mpr ((finishes finish).mpr rfl).1) final
  have entered {cell : Int × Int} (inCells : cell ∈ cells) (notStart : cell ≠ start) :
      entering.degree cell.1 cell.2 ≠ 0 :=
    fun none => notStart ((starts cell).mp ⟨(member cell).mp inCells, none⟩)
  have isStart : first = start := by
    by_contra notStart
    obtain ⟨a, links⟩ := flows.exists_source (entered (kept first List.mem_cons_self) notStart)
    exact initial a links
  obtain ⟨left, isLeft⟩ := exists_cells rows cols fun cell => matched cell ∧ cell ∉ first :: rest
  have others (cell : Int × Int) : cell ∈ left ↔ cell ∈ cells ∧ cell ∉ first :: rest := by
    rw [isLeft, member, OnGrid, OnGrid, and_assoc]
  have onCycle : ∀ cell ∈ left, entering.degree cell.1 cell.2 ≠ 0 := by
    intro cell inLeft
    obtain ⟨inCells, notOnPath⟩ := (others cell).mp inLeft
    refine entered inCells ?_
    rintro rfl
    exact notOnPath (isStart ▸ List.mem_cons_self)
  obtain ⟨cycles, splits, isCycle⟩ := flows.exists_cycles (path.traces.sealed_rest closed others) few onCycle
  refine ⟨first :: rest, cycles, ?_, path, congrArg some isStart, ends, isCycle⟩
  refine Splits.cons path.traces.distinct (fun cell onPath => (member cell).mp (kept cell onPath))
    ⟨splits.distinct, fun cell => ?_⟩
  rw [← splits.covers cell, others, member]

end Flows

end GridPuzzle.Course
