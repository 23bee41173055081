import Mathlib.Algebra.Group.Nat.Even
import GridPuzzle.Side
import GridPuzzle.Proofs.Plane

/-!
Courses of loops over a grid, which may be many, lie in one another, and cross or touch. A cell lies outside
if an even number of cells above it are joined to their left neighbors. The sides of a cell that no loop
passes are those of all free cells that a path of such cells leads to, and at the border they are outside.
-/
namespace GridPuzzle

/-- The row and the column are those of a cell of the grid. -/
def InGrid (rows cols : Nat) (row col : Int) : Prop := (0 ≤ row ∧ row < rows) ∧ 0 ≤ col ∧ col < cols

instance (rows cols : Nat) (row col : Int) : Decidable (InGrid rows cols row col) :=
  inferInstanceAs (Decidable (_ ∧ _))

/-- The sides through which cells of a grid are passed. -/
structure Course (rows cols : Nat) where
  passes : Int → Int → Side → Bool
  inside : ∀ row col side, passes row col side = true → InGrid rows cols row col

namespace Course

variable {rows cols : Nat} {course : Course rows cols} {row col row' col' : Int}

/-- What leaves a cell comes back in the cell behind that side, and each cell has an even number of sides. -/
structure Closed (course : Course rows cols) : Prop where
  answered : ∀ row col side, course.passes row col side = true →
    course.passes (row + side.offset.row.val) (col + side.offset.col.val) side.opposite = true
  even : ∀ row col, InGrid rows cols row col → Even (Side.all.countP (course.passes row col))

def Free (course : Course rows cols) (row col : Int) : Prop :=
  InGrid rows cols row col ∧ ∀ side, course.passes row col side = false

/-- How many of the cells above a row are joined to their left neighbors. -/
def joinsAbove (course : Course rows cols) (row : Nat) (col : Int) : Nat :=
  (List.range row).countP fun (above : Nat) => course.passes above col .left

theorem passes_of_outside (outside : ¬ InGrid rows cols row col) (side : Side) :
    course.passes row col side = false :=
  Bool.eq_false_iff.mpr fun passed => outside (course.inside row col side passed)

theorem joinsAbove_zero (course : Course rows cols) (col : Int) : course.joinsAbove 0 col = 0 := rfl

theorem joinsAbove_succ (course : Course rows cols) (row : Nat) (col : Int) :
    course.joinsAbove (row + 1) col = course.joinsAbove row col + (course.passes row col .left).toNat := by
  rw [joinsAbove, List.range_succ, List.countP_append]
  cases passed : course.passes row col .left <;> simp [joinsAbove, passed]

theorem joinsAbove_eq_zero (unjoined : ∀ row, course.passes row col .left = false) (row : Nat) :
    course.joinsAbove row col = 0 := by
  induction row with
  | zero => rfl
  | succ row ih => rw [joinsAbove_succ, ih, unjoined]; rfl

section Closed

variable (closed : course.Closed)
include closed

theorem Closed.right_eq (row col : Int) : course.passes row col .right = course.passes row (col + 1) .left := by
  rw [Bool.eq_iff_iff]
  constructor
  · intro passed
    have answer := closed.answered row col .right passed
    rwa [show row + Side.right.offset.row.val = row from Int.add_zero row] at answer
  · intro passed
    have answer := closed.answered row (col + 1) .left passed
    rwa [show row + Side.left.offset.row.val = row from Int.add_zero row,
      show col + 1 + Side.left.offset.col.val = col from Int.add_neg_cancel_right col 1] at answer

theorem Closed.down_eq (row col : Int) : course.passes row col .down = course.passes (row + 1) col .up := by
  rw [Bool.eq_iff_iff]
  constructor
  · intro passed
    have answer := closed.answered row col .down passed
    rwa [show col + Side.down.offset.col.val = col from Int.add_zero col] at answer
  · intro passed
    have answer := closed.answered (row + 1) col .up passed
    rwa [show col + Side.up.offset.col.val = col from Int.add_zero col,
      show row + 1 + Side.up.offset.row.val = row from Int.add_neg_cancel_right row 1] at answer

theorem Closed.even_sides (row col : Int) : Even ((course.passes row col .left).toNat +
    (course.passes row col .up).toNat + (course.passes row (col + 1) .left).toNat +
    (course.passes (row + 1) col .up).toNat) := by
  rw [← closed.right_eq, ← closed.down_eq]
  by_cases inside : InGrid rows cols row col
  · have even := closed.even row col inside
    have counts (passed : Bool) : (if passed = true then 1 else 0) = passed.toNat := by cases passed <;> rfl
    simp only [Side.all, List.countP_cons, List.countP_nil, counts] at even
    rw [Nat.even_iff] at *
    omega
  · simp [passes_of_outside inside]

/-- Summed up over the cells above, the sides between them cancel out: two neighboring columns differ just
by the side through which the loop goes up from the cell. -/
theorem Closed.even_joinsAbove (row : Nat) (col : Int) :
    Even (course.joinsAbove row col + course.joinsAbove row (col + 1) + (course.passes row col .up).toNat) := by
  induction row with
  | zero =>
    have above : course.passes ((-1 : Int) + 1) col .up = false := by
      rw [← closed.down_eq]
      exact passes_of_outside (fun inside => by have := inside.1.1; omega) _
    simp only [joinsAbove_zero]
    rw [show ((0 : Nat) : Int) = -1 + 1 from rfl, above]
    exact Even.zero
  | succ row ih =>
    have even := closed.even_sides row col
    rw [joinsAbove_succ, joinsAbove_succ, Int.natCast_add, Int.natCast_one]
    rw [Nat.even_iff] at *
    omega

theorem Closed.joinsAbove_next {row : Nat} (unjoined : course.passes row col .up = false) :
    Even (course.joinsAbove row (col + 1)) ↔ Even (course.joinsAbove row col) := by
  have even := closed.even_joinsAbove row col
  rw [unjoined, Bool.toNat_false, Nat.add_zero, Nat.even_add] at even
  exact even.symm

theorem Closed.left_first (row : Int) : course.passes row 0 .left = false := by
  rw [show (0 : Int) = -1 + 1 from rfl, ← closed.right_eq]
  exact passes_of_outside (fun inside => by have := inside.2.1; omega) _

/-- Below the last row, every column has been joined an even number of times. -/
theorem Closed.even_column (col : Nat) : Even (course.joinsAbove rows col) := by
  induction col with
  | zero =>
    rw [Int.natCast_zero, joinsAbove_eq_zero closed.left_first]
    exact Even.zero
  | succ col ih =>
    rw [Int.natCast_add, Int.natCast_one, closed.joinsAbove_next]
    · exact ih
    · exact passes_of_outside (fun inside => by have := inside.1.2; omega) _

end Closed

def Outside (course : Course rows cols) (row col : Int) : Prop := Even (course.joinsAbove row.toNat col)

instance (course : Course rows cols) (row col : Int) : Decidable (course.Outside row col) :=
  inferInstanceAs (Decidable (Even _))

/-- The side changes below a cell that is joined to its left neighbor. -/
theorem outside_iff (course : Course rows cols) (inGrid : InGrid rows cols row col) :
    course.Outside row col ↔
      (course.Outside (row - 1) col ↔ course.passes (row - 1) col .left = false) := by
  obtain ⟨row, rfl⟩ := Int.eq_ofNat_of_zero_le inGrid.1.1
  cases row with
  | zero =>
    have none : course.passes (((0 : Nat) : Int) - 1) col .left = false :=
      passes_of_outside (fun inside => by have := inside.1.1; omega) _
    exact iff_of_true Even.zero (iff_of_true Even.zero none)
  | succ row =>
    rw [show ((row + 1 : Nat) : Int) - 1 = row by omega]
    change Even (course.joinsAbove (row + 1) col) ↔ (Even (course.joinsAbove row col) ↔ _)
    rw [joinsAbove_succ, Nat.even_add]
    cases course.passes row col .left <;> simp

section Outside

variable (closed : course.Closed)
include closed

private theorem outside_beside (free : course.Free row col) :
    course.Outside row (col + 1) ↔ course.Outside row col := by
  obtain ⟨row, rfl⟩ := Int.eq_ofNat_of_zero_le free.1.1.1
  exact closed.joinsAbove_next (free.2 .up)

omit closed in
private theorem outside_below (free : course.Free row col) :
    course.Outside (row + 1) col ↔ course.Outside row col := by
  obtain ⟨row, rfl⟩ := Int.eq_ofNat_of_zero_le free.1.1.1
  change Even (course.joinsAbove (row + 1) col) ↔ Even (course.joinsAbove row col)
  rw [joinsAbove_succ, free.2 .left]
  exact Iff.rfl

/-- Two free cells that are neighbors lie on one side. -/
theorem Closed.outside_iff_of_near (free : course.Free row col) (free' : course.Free row' col')
    (near : (row - row').natAbs + (col - col').natAbs = 1) :
    course.Outside row col ↔ course.Outside row' col' := by
  rcases (by omega : row' = row ∧ (col' = col + 1 ∨ col = col' + 1) ∨
      col' = col ∧ (row' = row + 1 ∨ row = row' + 1)) with ⟨rfl, rfl | rfl⟩ | ⟨rfl, rfl | rfl⟩
  · exact (outside_beside closed free).symm
  · exact outside_beside closed free'
  · exact (outside_below free).symm
  · exact outside_below free'

theorem Closed.outside_iff_of_reach (reach : Plane.Reach course.Free row col row' col') :
    course.Outside row col ↔ course.Outside row' col' := by
  induction reach with
  | start _ => exact Iff.rfl
  | step before here beside ih => exact ih.trans (closed.outside_iff_of_near before.ends_shaded here beside)

theorem Closed.outside_of_onRing (free : course.Free row col)
    (ring : row = 0 ∨ row + 1 = rows ∨ col = 0 ∨ col + 1 = cols) : course.Outside row col := by
  rcases ring with rfl | last | rfl | last
  · exact Even.zero
  · rw [← outside_below free, last]
    obtain ⟨col, rfl⟩ := Int.eq_ofNat_of_zero_le free.1.2.1
    exact closed.even_column col
  · rw [Outside, joinsAbove_eq_zero closed.left_first]
    exact Even.zero
  · rw [← outside_beside closed free, Outside, joinsAbove_eq_zero]
    · exact Even.zero
    · exact fun row => passes_of_outside (fun inside => by have := inside.2.2; omega) _

end Outside

end Course

end GridPuzzle
