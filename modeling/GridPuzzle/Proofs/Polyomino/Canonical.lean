import GridPuzzle.Proofs.Polyomino.Orbit

/-!
Canonical shapes. Whatever operations a shape comes from, its cells are in normal form, and what is asked of a shape
relies on that: the search for a cell, the extent, and whether two shapes are equal. Two lists of cells make one shape
exactly if a shift of the plane takes the cells of the one to those of the other.
-/
namespace GridPuzzle.Polyomino

variable {shape other : Polyomino} {cells cells' : List Cell}

/-- The shapes that come from operations none of which is refused. -/
inductive Built : Polyomino → Prop
  | ofCells {cells : List Cell} {shape : Polyomino} (made : Polyomino.ofCells cells = .ok shape) : Built shape
  | mapCells {move : Cell → Except Error Cell} {shape image : Polyomino} (built : Built shape)
      (made : shape.mapCells move = .ok image) : Built image
  | turn {move : Move} {shape image : Polyomino} (built : Built shape) (made : move.apply shape = .ok image) :
      Built image

-- what a map of a normal shape gives is normal as the shape has some cells, so this takes an induction
theorem Built.normal (built : shape.Built) : shape.Normal := by
  induction built with
  | ofCells made => exact normal_ofCells made
  | mapCells _ made ih => exact normal_mapCells ih.cells_ne_nil made
  | turn _ made ih => exact ih.of_apply made

theorem moveToOrigin_refusedOnly (least : Cell) (cells : List Cell) :
    Outcome.RefusedOnly Error.IsOverflow (moveToOrigin least cells) := by
  refine .bind (Coord.checked_refusedOnly _ _) fun _ _ => .bind (Coord.checked_refusedOnly _ _) fun _ _ => ?_
  exact .bind (.mapM fun cell _ => Cell.shift_refusedOnly cell _) fun _ _ => .of_ok _

/-- If there are any cells, only coordinates that do not fit keep them from being a shape. -/
theorem ofCells_refusedOnly (nonempty : cells ≠ []) : Outcome.RefusedOnly Error.IsOverflow (ofCells cells) := by
  obtain ⟨least, rest, sorted⟩ := List.exists_cons_of_ne_nil (Cell.sort_ne_nil nonempty)
  rw [ofCells, sorted]
  exact moveToOrigin_refusedOnly least (least :: rest)

theorem apply_refusedOnly (move : Move) (shape : Polyomino) :
    Outcome.RefusedOnly Error.IsOverflow (move.apply shape) := by
  have mapped {step : Cell → Except Error Cell} (each : ∀ cell, Outcome.RefusedOnly Error.IsOverflow (step cell)) :
      Outcome.RefusedOnly Error.IsOverflow (shape.mapCells step) :=
    .bind (.mapM fun cell _ => each cell) fun _ _ => moveToOrigin_refusedOnly _ _
  cases move with
  | rotate => exact mapped fun _ => .bind (Coord.checked_refusedOnly _ _) fun _ _ => .of_ok _
  | reflect => exact mapped fun _ => .bind (Coord.checked_refusedOnly _ _) fun _ _ => .of_ok _

theorem orientations_refusedOnly (shape : Polyomino) (symmetry : Symmetry) :
    Outcome.RefusedOnly Error.IsOverflow (shape.orientations symmetry) := by
  have explored (turns : Nat) (waiting found : List Polyomino) :
      Outcome.RefusedOnly Error.IsOverflow (explore symmetry.moves turns waiting found) := by
    induction turns generalizing waiting found with
    | zero => exact .of_ok _
    | succ turns ih =>
      cases waiting with
      | nil => exact .of_ok _
      | cons shape waiting => exact .bind (.mapM fun move _ => apply_refusedOnly move shape) fun _ _ => ih _ _
  exact explored _ _ _

namespace Normal

theorem ofCells_cells (normal : shape.Normal) : ofCells shape.cells = .ok shape := by
  obtain ⟨rest, same⟩ := List.head?_eq_some_iff.mp normal.first
  rw [ofCells, normal.increasing.sort_eq, same, settle_eq_ok, same]
  refine ⟨by decide, List.forall₂_same.mpr fun cell _ => ?_⟩
  exact (sub_zero cell.point).symm

/-- The extent counts the rows and the columns of the least box around the cells, where the counts fit. -/
theorem exists_extent (normal : shape.Normal) :
    ∃ top ∈ shape.cells, ∃ bottom ∈ shape.cells, ∃ left ∈ shape.cells, ∃ right ∈ shape.cells,
      (∀ cell ∈ shape.cells, (top.row.val ≤ cell.row.val ∧ cell.row.val ≤ bottom.row.val) ∧
        left.col.val ≤ cell.col.val ∧ cell.col.val ≤ right.col.val) ∧
      ∀ height width, shape.extent = .ok (height, width) ↔
        height.val = bottom.row.val - top.row.val + 1 ∧ width.val = right.col.val - left.col.val + 1 := by
  have origin := List.mem_of_head? normal.first
  obtain ⟨top, inTop, bottom, inBottom, left, inLeft, right, inRight, rowSpan, colSpan, within⟩ :=
    Cell.exists_extremes (List.ne_nil_of_mem origin)
  have highest : top.row.val = 0 := by
    have above := (within _ origin).1.1
    have least := normal.least inTop
    change top.row.val ≤ 0 at above
    omega
  refine ⟨top, inTop, bottom, inBottom, left, inLeft, right, inRight, within, fun height width => ?_⟩
  rw [highest, Int.sub_zero]
  simp only [extent, lastRow, columns, rowSpan, colSpan, Option.getD_some, Outcome.bind_eq_ok, Outcome.pure_eq_ok,
    Coord.add, Coord.sub, Coord.checked_eq_ok_iff, Prod.mk.injEq]
  constructor
  · intro parts
    obtain ⟨tall, rows, step, cols, wide, sum, rfl, rfl⟩ := parts
    exact ⟨rows, by rw [sum, cols]; rfl⟩
  · intro counts
    have fits := width.inRange
    have forwards := (within left inLeft).2.2
    exact ⟨height, counts.1, ⟨right.col.val - left.col.val, by omega⟩, rfl, width, counts.2, rfl, rfl⟩

end Normal

/-- Every shape that operations build has some cells. These strictly increase from the origin on, in rows from zero
on, and in row zero in columns from zero on. The halving search finds just the cells, the cells make the same shape
again, the extent is the size of the least box around them, and a map of the cells is the shape of their images, which
only coordinates that do not fit can keep from being one. -/
theorem built_canonical (built : shape.Built) :
    (shape.cells ≠ [] ∧ Cell.Increasing shape.cells ∧ shape.cells.head? = some (.of 0 0) ∧
      ∀ cell ∈ shape.cells, 0 ≤ cell.row.val ∧ (cell.row.val = 0 → 0 ≤ cell.col.val)) ∧
    (∀ cell, shape.contains cell = true ↔ cell ∈ shape.cells) ∧
    ofCells shape.cells = .ok shape ∧
    (∃ top ∈ shape.cells, ∃ bottom ∈ shape.cells, ∃ left ∈ shape.cells, ∃ right ∈ shape.cells,
      (∀ cell ∈ shape.cells, (top.row.val ≤ cell.row.val ∧ cell.row.val ≤ bottom.row.val) ∧
        left.col.val ≤ cell.col.val ∧ cell.col.val ≤ right.col.val) ∧
      ∀ height width, shape.extent = .ok (height, width) ↔
        height.val = bottom.row.val - top.row.val + 1 ∧ width.val = right.col.val - left.col.val + 1) ∧
    ∀ move : Cell → Except Error Cell, shape.mapCells move = shape.cells.mapM move >>= ofCells ∧
      ∀ images, shape.cells.mapM move = .ok images →
        ∀ error, ofCells images = .error error → ∃ operation, error = .overflow operation := by
  have normal := built.normal
  have nonempty := normal.cells_ne_nil
  refine ⟨⟨nonempty, normal.increasing, normal.first, fun cell member => ?_⟩, fun _ => normal.contains_iff,
    normal.ofCells_cells, normal.exists_extent, fun move => ⟨mapCells_eq nonempty move, fun images moved => ?_⟩⟩
  · have least := normal.least member
    omega
  · apply ofCells_refusedOnly
    rintro rfl
    exact nonempty (List.forall₂_nil_right_iff.mp (Outcome.mapM_eq_ok.mp moved))

/-- Three cells, one of them listed twice, which a map to one column and a turn leave as two cells in a row. -/
def flattened : Polyomino := ⟨[.of 0 0, .of 0 1]⟩

theorem flattened_built : flattened.Built := by
  have bent : ofCells [.of 3 5, .of 3 4, .of 2 5, .of 3 5] = .ok ⟨[.of 0 0, .of 1 (-1), .of 1 0]⟩ := by decide
  have merged : mapCells (fun cell => .ok ⟨cell.row, .of 0⟩) ⟨[.of 0 0, .of 1 (-1), .of 1 0]⟩ =
      .ok ⟨[.of 0 0, .of 1 0]⟩ := by decide
  have turned : Move.rotate.apply ⟨[.of 0 0, .of 1 0]⟩ = .ok flattened := by decide
  exact .turn (.mapCells (.ofCells bent) merged) turned

theorem built_canonical_flattened : flattened.Built ∧ Cell.Increasing flattened.cells ∧
    (∀ cell, flattened.contains cell = true ↔ cell ∈ [.of 0 0, .of 0 1]) ∧
    ofCells flattened.cells = .ok flattened ∧
    flattened.mapCells (·.shift (.of 0 1)) = ofCells [.of 0 1, .of 0 2] := by
  obtain ⟨⟨_, increasing, _⟩, found, again, _, maps⟩ := built_canonical flattened_built
  exact ⟨flattened_built, increasing, found, again, (maps (·.shift (.of 0 1))).1⟩

theorem exists_ofCells_of_fits (nonempty : cells ≠ [])
    (fits : ∀ operation, ofCells cells ≠ .error (.overflow operation)) : ∃ shape, ofCells cells = .ok shape := by
  cases made : ofCells cells with
  | error error =>
    obtain ⟨operation, rfl⟩ := ofCells_refusedOnly nonempty error made
    exact absurd made (fits operation)
  | ok shape => exact ⟨shape, rfl⟩

theorem eq_iff_shifted (made : ofCells cells = .ok shape) (made' : ofCells cells' = .ok other) :
    shape = other ↔ ∃ offset : ℤ × ℤ, ∀ point,
      (∃ cell ∈ cells', cell.point = point) ↔ ∃ cell ∈ cells, cell.point + offset = point := by
  obtain ⟨own, has⟩ := has_ofCells made
  obtain ⟨own', has'⟩ := has_ofCells made'
  constructor
  · rintro rfl
    refine ⟨own - own', fun point => ?_⟩
    calc
      (∃ cell ∈ cells', cell.point = point) ↔ ∃ cell ∈ cells', point + own' = cell.point + own' :=
        exists_congr fun cell => and_congr_right fun _ => by rw [add_left_inj, eq_comm]
      _ ↔ ∃ cell ∈ cells, point + own' = cell.point + own := by rw [← has', has]
      _ ↔ ∃ cell ∈ cells, cell.point + (own - own') = point :=
        exists_congr fun cell => and_congr_right fun _ => by rw [← add_sub_assoc, sub_eq_iff_eq_add, eq_comm]
  · rintro ⟨offset, shifted⟩
    have moved (point : ℤ × ℤ) : other.Has point ↔ shape.Has (point + (own - own' - offset)) := by
      calc
        other.Has point ↔ ∃ cell ∈ cells', cell.point = point - own' := by
          rw [has']
          exact exists_congr fun cell => and_congr_right fun _ => by rw [eq_sub_iff_add_eq, eq_comm]
        _ ↔ ∃ cell ∈ cells, cell.point + offset = point - own' := shifted _
        _ ↔ ∃ cell ∈ cells, point + (own - own' - offset) = cell.point + own :=
          exists_congr fun cell => and_congr_right fun _ => by
            simp only [Prod.ext_iff, Prod.fst_add, Prod.snd_add, Prod.fst_sub, Prod.snd_sub]
            omega
        _ ↔ shape.Has (point + (own - own' - offset)) := (has _).symm
    exact ((normal_ofCells made).eq_of_shift (normal_ofCells made') moved).symm

/-- Cells in any order and number, as long as no coordinate overflows on the way, have the same shape as other ones
exactly if some shift of the plane takes the first ones to the others. A coordinate overflows exactly if the first of
the cells in reading order lies at the least row or column, or one of the cells too far below it or beside it. -/
theorem shapes_shifted :
    (∀ cells cells', cells ≠ [] → cells' ≠ [] → (∀ operation, ofCells cells ≠ .error (.overflow operation)) →
      (∀ operation, ofCells cells' ≠ .error (.overflow operation)) →
        ∃ shape other, ofCells cells = .ok shape ∧ ofCells cells' = .ok other ∧
          (shape = other ↔ ∃ offset : ℤ × ℤ, ∀ point,
            (∃ cell ∈ cells', cell.point = point) ↔ ∃ cell ∈ cells, cell.point + offset = point)) ∧
    ∀ cells, ∀ least ∈ cells, (∀ cell ∈ cells, ¬ cell < least) →
      ((∃ operation, ofCells cells = .error (.overflow operation)) ↔
        (least.row.val = -2147483648 ∨ least.col.val = -2147483648) ∨
          (∃ cell ∈ cells, 2147483647 < cell.row.val - least.row.val) ∨
          ∃ cell ∈ cells, cell.col.val - least.col.val < -2147483648 ∨ 2147483647 < cell.col.val - least.col.val) := by
  refine ⟨fun cells cells' nonempty nonempty' fits fits' => ?_, fun cells least listed first => ?_⟩
  · obtain ⟨shape, made⟩ := exists_ofCells_of_fits nonempty fits
    obtain ⟨other, made'⟩ := exists_ofCells_of_fits nonempty' fits'
    exact ⟨shape, other, made, made', eq_iff_shifted made made'⟩
  · have nonempty := List.ne_nil_of_mem listed
    have overflows : (∃ operation, ofCells cells = .error (.overflow operation)) ↔
        ¬ ∃ shape, ofCells cells = .ok shape := by
      constructor
      · rintro ⟨operation, refused⟩ ⟨shape, made⟩
        rw [refused] at made
        cases made
      · intro none
        by_contra fits
        exact none (exists_ofCells_of_fits nonempty (not_exists.mp fits))
    rw [overflows, exists_ofCells_iff listed first, not_and_or, not_and_or, not_not, not_not]
    simp only [not_forall, not_and_or, Int.not_le, exists_prop, and_or_left, exists_or]

theorem shapes_shifted_bent :
    (∃ offset : ℤ × ℤ, ∀ point,
      (∃ cell ∈ [Cell.of 1 0, .of 0 0, .of 1 (-1), .of 0 0], cell.point = point) ↔
        ∃ cell ∈ [Cell.of 3 5, .of 3 4, .of 2 5], cell.point + offset = point) ∧
    ∃ operation, ofCells [.of 0 (-2), ⟨.of 1, .greatest⟩] = .error (.overflow operation) := by
  have bent : ofCells [.of 3 5, .of 3 4, .of 2 5] = .ok ⟨[.of 0 0, .of 1 (-1), .of 1 0]⟩ := by decide
  have bent' : ofCells [.of 1 0, .of 0 0, .of 1 (-1), .of 0 0] = .ok ⟨[.of 0 0, .of 1 (-1), .of 1 0]⟩ := by decide
  have fits : ∀ operation, ofCells [.of 3 5, .of 3 4, .of 2 5] ≠ .error (.overflow operation) := by
    rw [bent]
    exact nofun
  have fits' : ∀ operation, ofCells [.of 1 0, .of 0 0, .of 1 (-1), .of 0 0] ≠ .error (.overflow operation) := by
    rw [bent']
    exact nofun
  obtain ⟨shapes, overflows⟩ := shapes_shifted
  obtain ⟨_, _, made, made', shifted⟩ := shapes _ _ (by decide) (by decide) fits fits'
  rw [bent] at made
  rw [bent'] at made'
  cases made
  cases made'
  have far : (2147483647 : Int) < Coord.greatest.val - (Coord.of (-2)).val := by decide
  refine ⟨shifted.mp rfl, (overflows _ (.of 0 (-2)) List.mem_cons_self (by decide)).mpr (.inr (.inr ?_))⟩
  exact ⟨⟨.of 1, .greatest⟩, List.mem_cons_of_mem _ List.mem_cons_self, .inr far⟩

end GridPuzzle.Polyomino
