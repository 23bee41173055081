import Mathlib.Data.Int.LeastGreatest
import Mathlib.Order.Bounds.Basic
import GridPuzzle.Proofs.Plane.Course

/-!
Straight runs of a course along a row or a column. Where sides are answered, the run through a cell reaches from
the nearest cell that is not joined to the one before it up to the nearest one that is not joined to the next.
-/
namespace GridPuzzle

/-- A row or a column, by the numbers of its cells. Each cell has the cell before it behind one side and the next one
behind another. -/
structure Line where
  row : Int → Int
  col : Int → Int
  before : Side
  after : Side

namespace Line

def ofRow (row : Int) : Line := ⟨fun _ => row, id, .left, .right⟩

def ofCol (col : Int) : Line := ⟨id, fun _ => col, .up, .down⟩

end Line

namespace Course

variable {rows cols : Nat} {course : Course rows cols} {line : Line} {length start first last : Int}

/-- The numbers of the cells of the grid on a line that the course does not leave through a side. -/
def stops (course : Course rows cols) (line : Line) (side : Side) : Set Int :=
  {number | InGrid rows cols (line.row number) (line.col number) ∧
    course.passes (line.row number) (line.col number) side = false}

/-- The cells from the first to the last, among them that of the start, are cells of the grid each of which is joined
to the next in both directions, and in no direction is one of the two ends joined to the cell beyond it. -/
structure IsRun (course : Course rows cols) (line : Line) (start first last : Int) : Prop where
  covers : first ≤ start ∧ start ≤ last
  inside : ∀ number, first ≤ number → number ≤ last → InGrid rows cols (line.row number) (line.col number)
  joined : ∀ number, first ≤ number → number < last →
    course.passes (line.row number) (line.col number) line.after = true ∧
      course.passes (line.row (number + 1)) (line.col (number + 1)) line.before = true
  opens : course.passes (line.row first) (line.col first) line.before = false ∧
    course.passes (line.row (first - 1)) (line.col (first - 1)) line.after = false
  closes : course.passes (line.row last) (line.col last) line.after = false ∧
    course.passes (line.row (last + 1)) (line.col (last + 1)) line.before = false

/-- The line crosses the grid, and what leaves a cell along the line comes back in the cell behind that side. -/
structure Follows (course : Course rows cols) (line : Line) (length : Int) : Prop where
  inGrid : ∀ number, InGrid rows cols (line.row number) (line.col number) ↔ 0 ≤ number ∧ number < length
  joined : ∀ number, course.passes (line.row number) (line.col number) line.after =
    course.passes (line.row (number + 1)) (line.col (number + 1)) line.before

section Answered

variable (answered : ∀ row col side, course.passes row col side = true →
  course.passes (row + side.offset.row.val) (col + side.offset.col.val) side.opposite = true)
include answered

theorem follows_row {row : Int} (inRow : 0 ≤ row ∧ row < rows) : course.Follows (.ofRow row) cols where
  inGrid _ := and_iff_right inRow
  joined number := by
    refine Bool.eq_iff_iff.mpr ⟨fun leaves => ?_, fun enters => ?_⟩
    · have back := answered row number .right leaves
      rwa [show row + Side.right.offset.row.val = row from Int.add_zero row] at back
    · have back := answered row (number + 1) .left enters
      rwa [show row + Side.left.offset.row.val = row from Int.add_zero row,
        show number + 1 + Side.left.offset.col.val = number from Int.add_sub_cancel number 1] at back

theorem follows_col {col : Int} (inCol : 0 ≤ col ∧ col < cols) : course.Follows (.ofCol col) rows where
  inGrid _ := and_iff_left inCol
  joined number := by
    refine Bool.eq_iff_iff.mpr ⟨fun leaves => ?_, fun enters => ?_⟩
    · have back := answered number col .down leaves
      rwa [show col + Side.down.offset.col.val = col from Int.add_zero col] at back
    · have back := answered (number + 1) col .up enters
      rwa [show col + Side.up.offset.col.val = col from Int.add_zero col,
        show number + 1 + Side.up.offset.row.val = number from Int.add_sub_cancel number 1] at back

end Answered

namespace Follows

variable (follows : course.Follows line length)
include follows

theorem before_iff (number : Int) : course.passes (line.row number) (line.col number) line.before =
    course.passes (line.row (number - 1)) (line.col (number - 1)) line.after := by
  rw [follows.joined (number - 1), Int.sub_add_cancel]

/-- The first cell of a line is not joined to the one before it, which is no cell of the grid. -/
theorem first_stops (here : 0 < length) : 0 ∈ course.stops line line.before := by
  refine ⟨(follows.inGrid 0).mpr ⟨le_refl 0, here⟩, ?_⟩
  rw [follows.before_iff]
  refine passes_of_outside (fun inside => ?_) _
  exact absurd ((follows.inGrid _).mp inside).1 (by decide)

theorem last_stops (here : 0 < length) : length - 1 ∈ course.stops line line.after := by
  refine ⟨(follows.inGrid _).mpr (by omega), ?_⟩
  rw [follows.joined, Int.sub_add_cancel]
  refine passes_of_outside (fun inside => ?_) _
  exact absurd ((follows.inGrid _).mp inside).2 (lt_irrefl length)

/-- The ends of a run are the nearest cells at which the course stops. -/
theorem isRun_iff : course.IsRun line start first last ↔
    IsGreatest {number ∈ course.stops line line.before | number ≤ start} first ∧
      IsLeast {number ∈ course.stops line line.after | start ≤ number} last := by
  constructor
  · intro run
    obtain ⟨low, high⟩ := run.covers
    have width : first ≤ last := low.trans high
    refine ⟨⟨⟨⟨run.inside first le_rfl width, run.opens.1⟩, low⟩, ?_⟩,
      ⟨⟨run.inside last width le_rfl, run.closes.1⟩, high⟩, ?_⟩
    · rintro number ⟨⟨_, stopped⟩, atMost⟩
      by_contra later
      have joined := (run.joined (number - 1) (by omega) (by omega)).2
      rw [Int.sub_add_cancel, stopped] at joined
      exact Bool.false_ne_true joined
    · rintro number ⟨⟨_, stopped⟩, atLeast⟩
      by_contra earlier
      have joined := (run.joined number (by omega) (by omega)).1
      rw [stopped] at joined
      exact Bool.false_ne_true joined
  · rintro ⟨⟨⟨⟨here, opens⟩, low⟩, greatest⟩, ⟨⟨here', closes⟩, high⟩, least⟩
    have inside (number : Int) (atLeast : first ≤ number) (atMost : number ≤ last) :
        InGrid rows cols (line.row number) (line.col number) := by
      have left := ((follows.inGrid first).mp here).1
      have right := ((follows.inGrid last).mp here').2
      exact (follows.inGrid number).mpr ⟨left.trans atLeast, atMost.trans_lt right⟩
    refine ⟨⟨low, high⟩, inside, fun number atLeast earlier => ?_, ⟨opens, by rw [← follows.before_iff, opens]⟩,
      ⟨closes, by rw [← follows.joined, closes]⟩⟩
    rw [← follows.joined, and_self]
    by_contra unjoined
    rw [Bool.not_eq_true] at unjoined
    by_cases early : number < start
    · -- The next cell is a stop before the start and lies behind the nearest of these.
      have stop : number + 1 ∈ course.stops line line.before :=
        ⟨inside _ (by omega) (by omega), by rw [← follows.joined, unjoined]⟩
      have bound : number + 1 ≤ first := greatest ⟨stop, by omega⟩
      omega
    · have stop : number ∈ course.stops line line.after := ⟨inside number atLeast earlier.le, unjoined⟩
      have bound : last ≤ number := least ⟨stop, by omega⟩
      omega

/-- There is only one run through a cell. -/
theorem run_unique {first' last' : Int} (run : course.IsRun line start first last)
    (run' : course.IsRun line start first' last') : first = first' ∧ last = last' := by
  have ends := follows.isRun_iff.mp run
  have ends' := follows.isRun_iff.mp run'
  exact ⟨ends.1.unique ends'.1, ends.2.unique ends'.2⟩

section Start

variable (inside : InGrid rows cols (line.row start) (line.col start))
include inside

theorem stops_before_nonempty : {number ∈ course.stops line line.before | number ≤ start}.Nonempty := by
  obtain ⟨low, high⟩ := (follows.inGrid start).mp inside
  exact ⟨0, follows.first_stops (low.trans_lt high), low⟩

theorem stops_after_nonempty : {number ∈ course.stops line line.after | start ≤ number}.Nonempty := by
  obtain ⟨low, high⟩ := (follows.inGrid start).mp inside
  exact ⟨length - 1, follows.last_stops (low.trans_lt high), Int.le_sub_one_of_lt high⟩

/-- There is a run through each cell of the grid. -/
theorem exists_run : ∃ first last, course.IsRun line start first last := by
  obtain ⟨first, isStop, greatest⟩ := Int.exists_greatest_of_bdd ⟨start, fun _ stop => stop.2⟩
    (follows.stops_before_nonempty inside)
  obtain ⟨last, isStop', least⟩ := Int.exists_least_of_bdd ⟨start, fun _ stop => stop.2⟩
    (follows.stops_after_nonempty inside)
  exact ⟨first, last, follows.isRun_iff.mpr ⟨⟨isStop, fun _ => greatest _⟩, isStop', fun _ => least _⟩⟩

end Start

end Follows

end Course

end GridPuzzle
