import GridPuzzle.Proofs.Board.Boxes
import GridPuzzle.Proofs.Plane.Walls

/-!
Regions of a board. Its walls and the border of its grid enclose the groups of the full board, and these are
filled boxes without walls in them exactly if all walls are aligned.
-/
namespace GridPuzzle.Board

variable {board : Board} {a b : Cell} {row col : Int}

/-- A wall stands there, or the grid ends there. -/
def Barred (board : Board) (place : Side × String) (row col : Int) : Prop :=
  board.wallFacts (.cell place.2 row col) ∨
    ¬ (board.Covers (row - place.1.offset.row.val) (col - place.1.offset.col.val) ↔ board.Covers row col)

def sheet (board : Board) : Plane.Sheet :=
  ⟨board.Covers, board.Barred (.right, Relation.wallLeft), board.Barred (.down, Relation.wallTop)⟩

theorem sheet_fenced (board : Board) : board.sheet.Fenced where
  crossing := covers_crossing
  left {r c} apart := by
    refine .inr ?_
    change ¬ (board.Covers (r - 0) (c - 1) ↔ board.Covers r c)
    rwa [Int.sub_zero]
  top {r c} apart := by
    refine .inr ?_
    change ¬ (board.Covers (r - 1) (c - 0) ↔ board.Covers r c)
    rwa [Int.sub_zero]

theorem barred_iff {place : Side × String} (member : place ∈ wallSides) (onA : board.contains a = true)
    (onB : board.contains b = true) (beside : place.1.neighbor a = .ok b) :
    board.Barred place b.row.val b.col.val ↔ board.isWalled a b = true := by
  have moved := Cell.shift_eq_ok.mp beside
  have before : board.Covers (b.row.val - place.1.offset.row.val) (b.col.val - place.1.offset.col.val) := by
    rw [moved.1, moved.2, Int.add_sub_cancel, Int.add_sub_cancel]
    exact covers_cell.mpr onA
  have both := iff_of_true before (covers_cell.mpr onB)
  exact (or_iff_left (not_not.mpr both)).trans (wallFacts_cell member beside)

theorem left_iff (onA : board.contains a = true) (onB : board.contains b = true)
    (level : a.row.val = b.row.val) (near : (a.col.val - b.col.val).natAbs = 1) :
    board.sheet.left a.row.val (max a.col.val b.col.val) ↔ board.isWalled a b = true := by
  by_cases less : a.col.val < b.col.val
  · rw [Int.max_eq_right (by omega), level]
    exact barred_iff (by decide) onA onB (neighbor_right level.symm (by omega))
  · rw [Int.max_eq_left (by omega), isWalled_symm]
    exact barred_iff (by decide) onB onA (neighbor_right level (by omega))

theorem top_iff (onA : board.contains a = true) (onB : board.contains b = true)
    (upright : a.col.val = b.col.val) (near : (a.row.val - b.row.val).natAbs = 1) :
    board.sheet.top (max a.row.val b.row.val) a.col.val ↔ board.isWalled a b = true := by
  by_cases less : a.row.val < b.row.val
  · rw [Int.max_eq_right (by omega), upright]
    exact barred_iff (by decide) onA onB (neighbor_down (by omega) upright.symm)
  · rw [Int.max_eq_left (by omega), isWalled_symm]
    exact barred_iff (by decide) onB onA (neighbor_down (by omega) upright)

theorem linked_full : board.full.Linked .walled a b ↔ (board.contains a = true ∧ board.contains b = true) ∧
    Adjacency.side.Near a b ∧ board.isWalled a b = false := by
  rw [Linked, isShaded_full, isShaded_full, adjacent_iff Adjacency.fixed_walled]
  constructor
  · intro linked
    exact ⟨linked.2.2.1, linked.2.2.2.1, linked.2.2.2.2 rfl⟩
  · intro linked
    exact ⟨linked.1.1, linked.1.2, linked.1, linked.2.1, fun _ => linked.2.2⟩

theorem opens_iff : board.sheet.Opens a.row.val a.col.val b.row.val b.col.val ↔
    board.full.Linked .walled a b := by
  rw [linked_full]
  constructor
  · intro opens
    have near := opens.beside
    obtain ⟨⟨coversA, coversB⟩, side⟩ := opens
    have onA := covers_cell.mp coversA
    have onB := covers_cell.mp coversB
    refine ⟨⟨onA, onB⟩, near, Bool.eq_false_iff.mpr ?_⟩
    rcases side with ⟨level, one, free⟩ | ⟨upright, one, free⟩
    · exact mt (left_iff onA onB level one).mpr free
    · exact mt (top_iff onA onB upright one).mpr free
  · intro linked
    obtain ⟨⟨onA, onB⟩, near, free⟩ := linked
    change _ + _ = 1 at near
    refine ⟨⟨covers_cell.mpr onA, covers_cell.mpr onB⟩, ?_⟩
    by_cases level : a.row.val = b.row.val
    · refine .inl ⟨level, by omega, mt (left_iff onA onB level (by omega)).mp ?_⟩
      exact Bool.eq_false_iff.mp free
    · refine .inr ⟨by omega, by omega, mt (top_iff onA onB (by omega) (by omega)).mp ?_⟩
      exact Bool.eq_false_iff.mp free

theorem leads_of_joined (joined : board.full.Joined .walled a b) :
    Plane.Leads board.sheet.Opens a.row.val a.col.val b.row.val b.col.val := by
  induction joined with
  | refl => exact .start
  | tail _ linked ih => exact .step ih (opens_iff.mpr linked)

theorem joined_of_leads (leads : Plane.Leads board.sheet.Opens a.row.val a.col.val row col) :
    ∃ b, board.full.Joined .walled a b ∧ b.row.val = row ∧ b.col.val = col := by
  induction leads with
  | start => exact ⟨a, .refl, rfl, rfl⟩
  | step _ opens ih =>
    obtain ⟨b, joined, rfl, rfl⟩ := ih
    obtain ⟨next, _, rfl, rfl⟩ := opens.1.2
    exact ⟨next, joined.tail (opens_iff.mp opens), rfl, rfl⟩

section Groups

variable {groups : List (List Cell)} (grouped : board.full.components .walled = .ok groups)
include grouped

theorem whole_of_aligned (aligned : board.sheet.Aligned) {group : List Cell} (member : group ∈ groups) :
    Fills group ∧ ¬ board.Parted group := by
  have isGroup := (IsGroup.of_components Adjacency.fixed_walled grouped).1 group member
  have squared := aligned.squared board.sheet_fenced
  constructor
  · intro top inTop bottom inBottom left inLeft right inRight row col inRow inCol
    have leads {cell : Cell} (inside : cell ∈ group) := leads_of_joined ((isGroup.joined top inTop cell).mp inside)
    obtain ⟨cell, joined, rows, cols⟩ := joined_of_leads
      (Plane.Leads.fill squared (leads inTop) (leads inBottom) (leads inLeft) (leads inRight) inRow inCol)
    exact ⟨cell, (isGroup.joined top inTop cell).mpr joined, rows, cols⟩
  · intro parted
    obtain ⟨a, inA, b, inB, near, walled⟩ := parted
    have leads := leads_of_joined ((isGroup.joined a inA b).mp inB)
    have opens := (leads.boxed squared).meshed a.row.val a.col.val b.row.val b.col.val
      (by unfold Plane.Between; omega) (by unfold Plane.Between; omega) (by unfold Plane.Between; omega)
      (by unfold Plane.Between; omega) near
    rw [(linked_full.mp (opens_iff.mp opens)).2.2] at walled
    cases walled

theorem sheet_whole (whole : ∀ group ∈ groups, Fills group ∧ ¬ board.Parted group) : board.sheet.Whole := by
  obtain ⟨classes, covered⟩ := IsGroup.of_components Adjacency.fixed_walled grouped
  have group_of {a : Cell} (covers : board.Covers a.row.val a.col.val) :=
    covered a (isShaded_full.mpr (covers_cell.mp covers))
  refine ⟨fun here first second => ?_, fun here leads near => ?_⟩
  · obtain ⟨a, _, rfl, rfl⟩ := id here
    obtain ⟨group, member, inA⟩ := group_of here
    obtain ⟨b, toB, rfl, rfl⟩ := joined_of_leads first
    obtain ⟨b', toB', rfl, rfl⟩ := joined_of_leads second
    have joined := (classes group member).joined a inA
    obtain ⟨cell, inside, rows, cols⟩ := (whole group member).1 b ((joined b).mpr toB) b ((joined b).mpr toB)
      b' ((joined b').mpr toB') b' ((joined b').mpr toB') b.row.val b'.col.val (.inl ⟨Int.le_refl _, Int.le_refl _⟩)
      (.inl ⟨Int.le_refl _, Int.le_refl _⟩)
    rw [← rows, ← cols]
    exact leads_of_joined ((joined cell).mp inside)
  · obtain ⟨a, onA, rfl, rfl⟩ := id here
    obtain ⟨group, member, inA⟩ := group_of here
    obtain ⟨b, toB, rfl, rfl⟩ := joined_of_leads leads
    have inB := ((classes group member).joined a inA b).mpr toB
    have onB := isShaded_full.mp ((classes group member).shaded b inB)
    refine opens_iff.mpr (linked_full.mpr ⟨⟨onA, onB⟩, near, Bool.eq_false_iff.mpr fun walled => ?_⟩)
    exact (whole group member).2 ⟨a, inA, b, inB, near, walled⟩

/-- The walls of a board are aligned exactly if they enclose filled boxes without walls in them. -/
theorem aligned_iff : board.sheet.Aligned ↔ ∀ group ∈ groups, Fills group ∧ ¬ board.Parted group :=
  ⟨fun aligned _ member => whole_of_aligned grouped aligned member,
    fun whole => (sheet_whole grouped whole).aligned board.sheet_fenced⟩

end Groups

end GridPuzzle.Board
