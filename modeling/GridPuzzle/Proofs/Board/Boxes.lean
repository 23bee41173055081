import Mathlib.Order.Interval.Finset.Basic
import Mathlib.Data.Int.Interval
import Mathlib.Data.Finset.Prod
import GridPuzzle.Board.Rectangle
import GridPuzzle.Proofs.Board.Facts
import GridPuzzle.Proofs.Plane

/-!
Groups that fill their boxes. A group of cells is as large as the box around it exactly if it has every
cell of the box, and all groups of a board are so exactly if its shaded cells nowhere bend.
-/
namespace GridPuzzle

namespace Board

variable {board : Board} {cells : List Cell}

/-- Of all rows and columns between those of the cells, the cells at the crossings are there. -/
def Fills (cells : List Cell) : Prop :=
  ∀ top ∈ cells, ∀ bottom ∈ cells, ∀ left ∈ cells, ∀ right ∈ cells, ∀ row col : Int,
    Plane.Between top.row.val bottom.row.val row → Plane.Between left.col.val right.col.val col →
      ∃ cell ∈ cells, cell.row.val = row ∧ cell.col.val = col

private theorem length_le_area (increasing : Cell.Increasing cells) {top bottom left right : Int}
    (inside : ∀ cell ∈ cells, (top ≤ cell.row.val ∧ cell.row.val ≤ bottom) ∧
      left ≤ cell.col.val ∧ cell.col.val ≤ right)
    (tall : top ≤ bottom) (wide : left ≤ right) :
    (cells.length : Int) ≤ (bottom - top + 1) * (right - left + 1) ∧
      ((bottom - top + 1) * (right - left + 1) = cells.length ↔
        ∀ row col, top ≤ row ∧ row ≤ bottom → left ≤ col ∧ col ≤ right →
          ∃ cell ∈ cells, cell.row.val = row ∧ cell.col.val = col) := by
  let points := cells.map fun cell => (cell.row.val, cell.col.val)
  have distinct : points.Nodup := by
    apply increasing.nodup.map
    intro a b same
    obtain ⟨rows, cols⟩ := Prod.mk.inj same
    exact Cell.ext rows cols
  let box := Finset.Icc top bottom ×ˢ Finset.Icc left right
  have within : points.toFinset ⊆ box := by
    intro point member
    obtain ⟨cell, listed, rfl⟩ := List.mem_map.mp (List.mem_toFinset.mp member)
    rw [Finset.mem_product, Finset.mem_Icc, Finset.mem_Icc]
    exact inside cell listed
  have count : points.toFinset.card = cells.length := by
    rw [List.toFinset_card_of_nodup distinct, List.length_map]
  have area : (box.card : Int) = (bottom - top + 1) * (right - left + 1) := by
    rw [Finset.card_product, Int.card_Icc, Int.card_Icc, Nat.cast_mul, Int.toNat_of_nonneg (by omega),
      Int.toNat_of_nonneg (by omega)]
    congr 1 <;> omega
  rw [← area, ← count, Nat.cast_inj]
  refine ⟨Int.ofNat_le.mpr (Finset.card_le_card within), ?_⟩
  apply Iff.intro
  · intro same row col inRow inCol
    have whole := Finset.eq_of_subset_of_card_le within same.le
    have member : (row, col) ∈ points.toFinset := by
      rw [whole, Finset.mem_product, Finset.mem_Icc, Finset.mem_Icc]
      exact ⟨inRow, inCol⟩
    obtain ⟨cell, listed, same⟩ := List.mem_map.mp (List.mem_toFinset.mp member)
    obtain ⟨rows, cols⟩ := Prod.mk.inj same
    exact ⟨cell, listed, rows, cols⟩
  · intro full
    refine congrArg Finset.card (Finset.Subset.antisymm ?_ within)
    intro point member
    rw [Finset.mem_product, Finset.mem_Icc, Finset.mem_Icc] at member
    obtain ⟨cell, listed, rows, cols⟩ := full point.1 point.2 member.1 member.2
    exact List.mem_toFinset.mpr (List.mem_map.mpr ⟨cell, listed, Prod.ext rows cols⟩)

theorem bounded_of_area (small : board.rows * board.cols ≤ 2147483647) : board.Bounded :=
  ⟨(Nat.le_mul_of_pos_right _ board.positive.2).trans small,
    (Nat.le_mul_of_pos_left _ board.positive.1).trans small⟩

private theorem lengthOf_ok (first last : Coord) (ordered : first.val ≤ last.val)
    (fits : last.val - first.val + 1 ≤ 2147483647) :
    ∃ length, lengthOf first last = .ok length ∧ length.val = last.val - first.val + 1 := by
  have steps : last.sub first = .ok ⟨last.val - first.val, by omega⟩ := Coord.checked_ok _
  refine ⟨⟨last.val - first.val + 1, by omega⟩, ?_, rfl⟩
  rw [lengthOf, Outcome.bind_of_ok steps]
  exact Coord.checked_ok _

theorem box?_ok (bounded : board.Bounded) (nonempty : cells ≠ [])
    (inside : ∀ cell ∈ cells, board.contains cell = true) :
    ∃ top ∈ cells, ∃ bottom ∈ cells, ∃ left ∈ cells, ∃ right ∈ cells, ∃ rectangle,
      box? cells = .ok (some rectangle) ∧ rectangle.topLeft = ⟨top.row, left.col⟩ ∧
      rectangle.height.val = bottom.row.val - top.row.val + 1 ∧
      rectangle.width.val = right.col.val - left.col.val + 1 ∧
      ∀ cell ∈ cells, (top.row.val ≤ cell.row.val ∧ cell.row.val ≤ bottom.row.val) ∧
        left.col.val ≤ cell.col.val ∧ cell.col.val ≤ right.col.val := by
  obtain ⟨top, topListed, bottom, bottomListed, left, leftListed, right, rightListed, rowSpan, colSpan, within⟩ :=
    Cell.exists_extremes nonempty
  obtain ⟨first, listed⟩ := List.exists_mem_of_ne_nil _ nonempty
  have spans := within first listed
  have onTop := contains_iff.mp (inside top topListed)
  have onBottom := contains_iff.mp (inside bottom bottomListed)
  have onLeft := contains_iff.mp (inside left leftListed)
  have onRight := contains_iff.mp (inside right rightListed)
  have sizes := bounded
  unfold Bounded at sizes
  obtain ⟨height, tall, heights⟩ := lengthOf_ok top.row bottom.row (by omega) (by omega)
  obtain ⟨width, wide, widths⟩ := lengthOf_ok left.col right.col (by omega) (by omega)
  refine ⟨top, topListed, bottom, bottomListed, left, leftListed, right, rightListed,
    ⟨⟨top.row, left.col⟩, height, width⟩, ?_, rfl, heights, widths, within⟩
  simp only [box?, rowSpan, colSpan]
  rw [Outcome.bind_of_ok tall, Outcome.bind_of_ok wide]
  rfl

/-- The box around cells on a board is found. It has as many cells as they are exactly if they fill it, and
more than that otherwise. -/
theorem box_ok (bounded : board.Bounded) (increasing : Cell.Increasing cells) (nonempty : cells ≠ [])
    (inside : ∀ cell ∈ cells, board.contains cell = true) : ∃ box, box? cells = .ok (some box) ∧
      (0 ≤ box.height.val ∧ box.height.val ≤ board.rows) ∧ (0 ≤ box.width.val ∧ box.width.val ≤ board.cols) ∧
      (cells.length : Int) ≤ box.height.val * box.width.val ∧
      (box.height.val * box.width.val = cells.length ↔ Fills cells) := by
  obtain ⟨top, topListed, bottom, bottomListed, left, leftListed, right, rightListed, rectangle, boxed,
    _, heights, widths, within⟩ := box?_ok bounded nonempty inside
  have low := within bottom bottomListed
  have near := within right rightListed
  have onTop := contains_iff.mp (inside top topListed)
  have onBottom := contains_iff.mp (inside bottom bottomListed)
  have onLeft := contains_iff.mp (inside left leftListed)
  have onRight := contains_iff.mp (inside right rightListed)
  obtain ⟨atMost, whole⟩ := length_le_area increasing within (by omega) (by omega)
  refine ⟨rectangle, boxed, by omega, by omega, heights ▸ widths ▸ atMost, ?_⟩
  rw [heights, widths, whole]
  refine ⟨fun full upper inUpper lower inLower before inBefore after inAfter row col inRow inCol => ?_,
    fun fills row col inRow inCol => ?_⟩
  · have upperIn := within upper inUpper
    have lowerIn := within lower inLower
    have beforeIn := within before inBefore
    have afterIn := within after inAfter
    unfold Plane.Between at inRow inCol
    exact full row col (by omega) (by omega)
  · exact fills top topListed bottom bottomListed left leftListed right rightListed row col
      (.inl inRow) (.inl inCol)

/-- Whether a group of cells on a board is a rectangle is found, and it is one if it fills its box. -/
theorem filled?_ok (small : board.rows * board.cols ≤ 2147483647) (increasing : Cell.Increasing cells)
    (nonempty : cells ≠ []) (inside : ∀ cell ∈ cells, board.contains cell = true) :
    ∃ found, filled? cells = .ok found ∧ (found.isSome = true ↔ Fills cells) := by
  obtain ⟨rectangle, boxed, tall, wide, _, filled⟩ := box_ok (bounded_of_area small) increasing nonempty inside
  have atMost : rectangle.height.val * rectangle.width.val ≤ 2147483647 := by
    have whole : (board.rows : Int) * board.cols ≤ 2147483647 := by exact_mod_cast small
    exact (Int.mul_le_mul tall.2 wide.2 wide.1 (by omega)).trans whole
  have atLeast : 0 ≤ rectangle.height.val * rectangle.width.val := Int.mul_nonneg tall.1 wide.1
  have area : rectangle.height.mul rectangle.width = .ok ⟨_, by omega, atMost⟩ := Coord.checked_ok _
  refine ⟨if rectangle.height.val * rectangle.width.val = cells.length then some rectangle else none,
    ?_, ?_⟩
  · rw [filled?, Outcome.bind_of_ok boxed]
    exact Outcome.bind_of_ok area _
  · rw [← filled]
    split <;> simp_all

private theorem filledAll?_ok {groups : List (List Cell)} (each : ∀ group ∈ groups, ∃ found,
      filled? group = .ok found ∧ (found.isSome = true ↔ Fills group)) :
    ∃ found, filledAll? groups = .ok found ∧ (found.isSome = true ↔ ∀ group ∈ groups, Fills group) := by
  induction groups with
  | nil => exact ⟨some [], rfl, by simp⟩
  | cons group rest ih =>
    obtain ⟨here, found, exact⟩ := each group List.mem_cons_self
    obtain ⟨others, foundAll, exactAll⟩ := ih fun other member => each other (List.mem_cons_of_mem _ member)
    rw [List.forall_mem_cons, ← exact, ← exactAll, filledAll?, Outcome.bind_of_ok found]
    cases here with
    | none => exact ⟨none, rfl, by simp⟩
    | some rectangle =>
      refine ⟨others.map (rectangle :: ·), Outcome.bind_of_ok foundAll _, by simp⟩

theorem linked_side {a b : Cell} : board.Linked .side a b ↔
    board.isShaded a = true ∧ board.isShaded b = true ∧ Adjacency.side.Near a b := by
  unfold Linked
  rw [adjacent_iff Adjacency.fixed_side]
  refine ⟨fun linked => ⟨linked.1, linked.2.1, linked.2.2.2.1⟩, fun linked => ?_⟩
  have inside := contains_of_isShaded linked.1
  have inside' := contains_of_isShaded linked.2.1
  exact ⟨linked.1, linked.2.1, ⟨inside, inside'⟩, linked.2.2, nofun⟩

/-- A cell of the list lies at the row and the column. -/
def Plots (cells : List Cell) (row col : Int) : Prop :=
  ∃ cell ∈ cells, cell.row.val = row ∧ cell.col.val = col

theorem plots_cell {cell : Cell} : Plots cells cell.row.val cell.col.val ↔ cell ∈ cells := by
  refine ⟨fun plots => ?_, fun member => ⟨cell, member, rfl, rfl⟩⟩
  obtain ⟨other, member, rows, cols⟩ := plots
  exact Cell.ext rows cols ▸ member

section Group

variable {group : List Cell} {first : Cell} (shaded : board.isShaded first = true)
  (exact : ∀ cell, cell ∈ group ↔ board.Joined .side first cell)
include exact

private theorem reach_of_joined {cell : Cell} (joined : board.Joined .side first cell) :
    Plane.Reach (Plots group) first.row.val first.col.val cell.row.val cell.col.val := by
  induction joined with
  | refl => exact .start (plots_cell.mpr ((exact first).mpr .refl))
  | tail before linked ih =>
    have member := (exact _).mpr (before.tail linked)
    exact .step ih (plots_cell.mpr member) (linked_side.mp linked).2.2

private theorem fills_iff_bendless : Fills group ↔ Plane.Bendless (Plots group) := by
  apply Iff.intro
  · intro fills row col down along one one' here below beside
    obtain ⟨under, inUnder, rows, _⟩ := below
    obtain ⟨next, inNext, _, cols⟩ := beside
    apply fills under inUnder under inUnder next inNext next inNext
    · exact .inl ⟨rows.le, rows.ge⟩
    · exact .inl ⟨cols.le, cols.ge⟩
  · intro bendless top inTop bottom inBottom left inLeft right inRight row col inRow inCol
    have reach {cell : Cell} (member : cell ∈ group) := reach_of_joined exact ((exact cell).mp member)
    exact (Plane.Reach.fill bendless (reach inTop) (reach inBottom) (reach inLeft) (reach inRight)
      inRow inCol).ends_shaded

include shaded

theorem mem_group_of_near {cell next : Cell} (member : cell ∈ group) (shadedNext : board.isShaded next = true)
    (near : Adjacency.side.Near cell next) : next ∈ group := by
  have joined := (exact cell).mp member
  exact (exact next).mpr (joined.tail (linked_side.mpr ⟨joined.isShaded shaded, shadedNext, near⟩))

/-- The windows around a cell of a group hold the same shaded cells as the group. -/
private theorem bendsAt_plots {row col down along : Int} :
    Plane.BendsAt (Plots group) row col down along ↔
      Plots group row col ∧ Plane.BendsAt board.Shades row col down along := by
  have shades {row col : Int} (plots : Plots group row col) : board.Shades row col := by
    obtain ⟨cell, member, rfl, rfl⟩ := plots
    exact shades_cell.mpr (((exact cell).mp member).isShaded shaded)
  have beside {row col row' col' : Int} (plots : Plots group row col) (shades : board.Shades row' col')
      (near : (row - row').natAbs + (col - col').natAbs = 1) : Plots group row' col' := by
    obtain ⟨cell, member, rfl, rfl⟩ := plots
    obtain ⟨next, shadedNext, rfl, rfl⟩ := shades
    exact plots_cell.mpr (mem_group_of_near shaded exact member shadedNext near)
  apply Iff.intro
  · intro bends
    have ⟨one, one', here, below, next, missing⟩ := bends
    refine ⟨here, one, one', shades here, shades below, shades next, fun fourth => missing ?_⟩
    exact beside below fourth (by omega)
  · intro bends
    obtain ⟨here, one, one', _, below, next, missing⟩ := bends
    exact ⟨one, one', here, beside here below (by omega), beside here next (by omega),
      fun fourth => missing (shades fourth)⟩

/-- A group fills its box exactly if the shading bends at none of its cells. -/
theorem fills_iff : Fills group ↔
    ∀ row col down along, Plots group row col → ¬ Plane.BendsAt board.Shades row col down along := by
  rw [fills_iff_bendless exact, Plane.bendless_iff]
  simp only [bendsAt_plots shaded exact, not_and]

end Group

/-- For the groups of a board it is found which of them are rectangles. -/
theorem groups_ok (small : board.rows * board.cols ≤ 2147483647) :
    ∃ groups, board.components .side = .ok groups ∧
      (∀ group ∈ groups, Cell.Increasing group ∧ (∃ first, board.isShaded first = true ∧
        ∀ cell, cell ∈ group ↔ board.Joined .side first cell) ∧
        ∃ found, filled? group = .ok found ∧ (found.isSome = true ↔ Fills group)) ∧
      ∀ cell, board.isShaded cell = true → ∃ group ∈ groups, cell ∈ group := by
  obtain ⟨groups, grouped, classes, covered⟩ :=
    (bounded_of_area small).components_ok Adjacency.fixed_side
  refine ⟨groups, grouped, fun group member => ?_, covered⟩
  obtain ⟨increasing, first, shaded, exact⟩ := classes group member
  refine ⟨increasing, ⟨first, shaded, exact⟩, filled?_ok small increasing ?_ fun cell inGroup => ?_⟩
  · exact List.ne_nil_of_mem ((exact first).mpr .refl)
  · exact contains_of_isShaded (((exact cell).mp inGroup).isShaded shaded)

theorem rectangles_ok {groups : List (List Cell)} (grouped : board.components .side = .ok groups)
    (each : ∀ group ∈ groups, ∃ found, filled? group = .ok found ∧ (found.isSome = true ↔ Fills group)) :
    ∃ found, board.rectangles = .ok found ∧ (found.isSome = true ↔ ∀ group ∈ groups, Fills group) := by
  obtain ⟨found, foundAll, exact⟩ := filledAll?_ok each
  exact ⟨found, (Outcome.bind_of_ok grouped _).trans foundAll, exact⟩

/-- All groups fill their boxes exactly if the shaded cells nowhere bend. -/
theorem fills_all_iff {groups : List (List Cell)} (classes : ∀ group ∈ groups, ∃ first,
      board.isShaded first = true ∧ ∀ cell, cell ∈ group ↔ board.Joined .side first cell)
    (covered : ∀ cell, board.isShaded cell = true → ∃ group ∈ groups, cell ∈ group) :
    (∀ group ∈ groups, Fills group) ↔ Plane.Bendless board.Shades := by
  rw [Plane.bendless_iff]
  apply Iff.intro
  · intro fills row col down along bends
    obtain ⟨cell, shaded, rfl, rfl⟩ := bends.here
    obtain ⟨group, member, inGroup⟩ := covered cell shaded
    obtain ⟨first, shadedFirst, isClass⟩ := classes group member
    exact (fills_iff shadedFirst isClass).mp (fills group member) _ _ _ _ (plots_cell.mpr inGroup) bends
  · intro bendless group member
    obtain ⟨first, shaded, isClass⟩ := classes group member
    exact (fills_iff shaded isClass).mpr fun row col down along _ => bendless row col down along

/-- Whether all groups are rectangles is found, and they are if the shaded cells nowhere bend. -/
theorem allRectangles_ok (small : board.rows * board.cols ≤ 2147483647) :
    ∃ answer, board.allRectangles false = .ok answer ∧
      (answer = true ↔ Plane.Bendless board.Shades) := by
  obtain ⟨groups, grouped, classes, covered⟩ := groups_ok small
  obtain ⟨found, rectangles, exact⟩ := rectangles_ok grouped fun group member => (classes group member).2.2
  refine ⟨found.isSome, ?_, ?_⟩
  · rw [allRectangles, Outcome.bind_of_ok rectangles]
    cases found <;> rfl
  · rw [exact, fills_all_iff (fun group member => (classes group member).2.1) covered]

end Board

end GridPuzzle
