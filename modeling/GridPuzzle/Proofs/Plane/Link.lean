import Mathlib.Algebra.Order.Interval.Finset.Basic
import Mathlib.Data.Int.Interval
import GridPuzzle.Proofs.Plane.Course
import GridPuzzle.Proofs.Strand.Undirected

/-!
Cells linked by a course. A course that passes matched cells only, is answered everywhere and has two sides in each
cell but its ends, where it has one, runs in cycles and in paths from end to end.
-/
namespace GridPuzzle

namespace Side

def behind (side : Side) (cell : Int × Int) : Int × Int :=
  (cell.1 + side.offset.row.val, cell.2 + side.offset.col.val)

theorem behind_opposite (side : Side) (cell : Int × Int) : side.opposite.behind (side.behind cell) = cell := by
  have back : ∀ side : Side, side.offset.row.val + side.opposite.offset.row.val = 0 ∧
      side.offset.col.val + side.opposite.offset.col.val = 0 := by
    intro side
    cases side <;> decide
  simp only [behind, Int.add_assoc, back side, Int.add_zero]

theorem behind_injective {side side' : Side} {cell : Int × Int} (same : side.behind cell = side'.behind cell) :
    side = side' := by
  simp only [behind, Prod.mk.injEq, Int.add_right_inj] at same
  revert same
  cases side <;> cases side' <;> decide

theorem behind_ne (side : Side) (cell : Int × Int) : side.behind cell ≠ cell := by
  intro same
  simp only [behind, Prod.ext_iff, add_eq_left] at same
  revert same
  cases side <;> decide

end Side

def OnGrid (rows cols : Nat) (property : Int × Int → Prop) (cell : Int × Int) : Prop :=
  InGrid rows cols cell.1 cell.2 ∧ property cell

theorem exists_cells (rows cols : Nat) (property : Int × Int → Prop) :
    ∃ cells : Finset (Int × Int), ∀ cell, cell ∈ cells ↔ OnGrid rows cols property cell := by
  classical
  refine ⟨{cell ∈ Finset.Ico (0 : Int) rows ×ˢ Finset.Ico (0 : Int) cols | property cell}, fun cell => ?_⟩
  simp only [Finset.mem_filter, Finset.mem_product, Finset.mem_Ico, OnGrid, InGrid]

namespace Course

variable {rows cols : Nat} {course : Course rows cols} {row col : Int} {a b c : Int × Int}

def ofList (sides : List (Int × Int × Side)) (inside : ∀ place ∈ sides, InGrid rows cols place.1 place.2.1) :
    Course rows cols where
  passes row col side := (row, col, side) ∈ sides
  inside _ _ _ passed := inside _ (of_decide_eq_true passed)

def degree (course : Course rows cols) (row col : Int) : Nat := Side.all.countP (course.passes row col)

private theorem mem_passed {side : Side} :
    side ∈ Side.all.filter (course.passes row col) ↔ course.passes row col side = true := by
  rw [List.mem_filter, and_iff_right side.mem_all]

theorem degree_eq_zero_iff : course.degree row col = 0 ↔ ∀ side, course.passes row col side = false := by
  simp [degree, List.countP_eq_zero, Side.mem_all]

theorem exists_side (one : course.degree row col = 1) :
    ∃ side, ∀ other, course.passes row col other = true ↔ other = side := by
  rw [degree, List.countP_eq_length_filter, List.length_eq_one_iff] at one
  obtain ⟨side, only⟩ := one
  exact ⟨side, fun other => by rw [← mem_passed, only, List.mem_singleton]⟩

theorem exists_two_sides (two : course.degree row col = 2) :
    ∃ side side', side ≠ side' ∧ ∀ other, course.passes row col other = true ↔ other = side ∨ other = side' := by
  have distinct : (Side.all.filter (course.passes row col)).Nodup := List.Nodup.filter _ (by decide)
  rw [degree, List.countP_eq_length_filter, List.length_eq_two] at two
  obtain ⟨side, side', only⟩ := two
  rw [only, List.nodup_cons, List.mem_singleton] at distinct
  exact ⟨side, side', distinct.1, fun other => by rw [← mem_passed, only, List.mem_pair]⟩

/-- The course leads from a cell to the one behind a side that it passes. -/
def Links (course : Course rows cols) (a b : Int × Int) : Prop :=
  ∃ side, course.passes a.1 a.2 side = true ∧ b = side.behind a

theorem not_links_self (course : Course rows cols) (a : Int × Int) : ¬ course.Links a a := by
  intro links
  obtain ⟨side, _, same⟩ := links
  exact side.behind_ne a same.symm

theorem hasOne_links (one : course.degree a.1 a.2 = 1) : HasOne course.Links a := by
  obtain ⟨side, only⟩ := exists_side one
  refine ⟨side.behind a, fun c => ⟨fun links => ?_, fun same => ⟨side, (only side).mpr rfl, same⟩⟩⟩
  obtain ⟨other, passed, rfl⟩ := links
  rw [(only other).mp passed]

theorem hasTwo_links (two : course.degree a.1 a.2 = 2) : HasTwo course.Links a := by
  obtain ⟨side, side', apart, only⟩ := exists_two_sides two
  refine ⟨side.behind a, side'.behind a, fun same => apart (Side.behind_injective same), fun c => ?_⟩
  constructor
  · intro links
    obtain ⟨other, passed, rfl⟩ := links
    exact ((only other).mp passed).imp (congrArg (Side.behind · a)) (congrArg (Side.behind · a))
  · intro either
    rcases either with same | same
    · exact ⟨side, (only side).mpr (.inl rfl), same⟩
    · exact ⟨side', (only side').mpr (.inr rfl), same⟩

/-- Matched cells alone are passed, a side is answered by the cell of the grid behind it, and a matched cell has one
of some numbers of sides unless it is an end. Ends are matched and have one side. -/
structure Obeys (course : Course rows cols) (matched ends : Int × Int → Prop) (degrees : List Int) : Prop where
  only : ∀ cell side, course.passes cell.1 cell.2 side = true → matched cell
  answered : ∀ cell side, course.passes cell.1 cell.2 side = true →
    InGrid rows cols (side.behind cell).1 (side.behind cell).2 ∧
      course.passes (side.behind cell).1 (side.behind cell).2 side.opposite = true
  ended : ∀ cell, OnGrid rows cols ends cell → matched cell ∧ course.degree cell.1 cell.2 = 1
  counted : ∀ cell, OnGrid rows cols matched cell → ¬ ends cell → (course.degree cell.1 cell.2 : Int) ∈ degrees

namespace Obeys

variable {matched ends : Int × Int → Prop} {degrees : List Int}

theorem links_symm (obeys : course.Obeys matched ends degrees) (links : course.Links a b) : course.Links b a := by
  obtain ⟨side, passed, rfl⟩ := links
  exact ⟨side.opposite, (obeys.answered a side passed).2, (side.behind_opposite a).symm⟩

theorem of_links (obeys : course.Obeys matched ends degrees) (links : course.Links a b) :
    OnGrid rows cols matched a := by
  obtain ⟨side, passed, _⟩ := links
  exact ⟨course.inside _ _ _ passed, obeys.only a side passed⟩

/-- Where cells that are no ends have two sides, matched cells lie on cycles and on paths from end to end. -/
theorem exists_splits (obeys : course.Obeys matched ends [2]) :
    ∃ paths cycles, Splits (OnGrid rows cols matched) (paths ++ cycles) ∧
      (∀ path ∈ paths, IsPath course.Links path) ∧ (∀ cycle ∈ cycles, IsCycle course.Links cycle) ∧
      ∀ cell, OnGrid rows cols ends cell ↔
        ∃ path ∈ paths, path.head? = some cell ∨ path.getLast? = some cell := by
  obtain ⟨cells, member⟩ := exists_cells rows cols matched
  have two {cell : Int × Int} (inCells : cell ∈ cells) (notEnd : ¬ ends cell) : HasTwo course.Links cell := by
    have counted := List.mem_singleton.mp (obeys.counted cell ((member cell).mp inCells) notEnd)
    exact hasTwo_links (Int.ofNat_inj.mp counted)
  have one {cell : Int × Int} (isEnd : OnGrid rows cols ends cell) : HasOne course.Links cell :=
    hasOne_links (obeys.ended cell isEnd).2
  have few : ∀ cell ∈ cells, HasOne course.Links cell ∨ HasTwo course.Links cell := by
    intro cell inCells
    by_cases isEnd : ends cell
    · exact .inl (one ⟨((member cell).mp inCells).1, isEnd⟩)
    · exact .inr (two inCells isEnd)
  have closed : Sealed course.Links cells := by
    intro a b links
    rw [member, member]
    exact iff_of_true (obeys.of_links links) (obeys.of_links (obeys.links_symm links))
  obtain ⟨paths, cycles, splits, isPath, isCycle, isEnd⟩ := exists_paths_cycles
    (fun a b links => obeys.links_symm links) few course.not_links_self closed
  refine ⟨paths, cycles, ⟨splits.distinct, fun cell => (member cell).symm.trans (splits.covers cell)⟩, isPath,
    isCycle, fun cell => ?_⟩
  constructor
  · intro ended
    exact (isEnd cell ((member cell).mpr ⟨ended.1, (obeys.ended cell ended).1⟩)).mp (one ended)
  · intro found
    obtain ⟨path, inPaths, either⟩ := found
    have inPath : cell ∈ path := either.elim List.mem_of_head? List.mem_of_getLast?
    have inCells : cell ∈ cells :=
      (splits.covers cell).mpr (List.mem_flatten.mpr ⟨path, List.mem_append_left _ inPaths, inPath⟩)
    refine ⟨((member cell).mp inCells).1, ?_⟩
    by_contra notEnd
    exact (two inCells notEnd).not_hasOne ((isEnd cell inCells).mpr ⟨path, inPaths, either⟩)

end Obeys

end Course

end GridPuzzle
