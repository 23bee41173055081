import GridPuzzle.Proofs.Board.Drawing
import GridPuzzle.Proofs.Polyomino.Canonical

/-!
Pictures of shapes. The text of a shape draws the least box around its cells, whatever the column is at which that box
starts. A board that is read from the lines of the text is shaded where the shape has its cells, some columns aside, so
its shaded cells make the shape again.
-/
namespace GridPuzzle.Polyomino

variable {shape other : Polyomino} {height width : Coord} {board : Board} {text : String}

/-- The box from row zero and the first column on, of so many rows and columns, is the least one with all cells. -/
structure Framed (shape : Polyomino) (height width : Coord) : Prop where
  rows : ∀ cell ∈ shape.cells, 0 ≤ cell.row.val ∧ cell.row.val < height.val
  cols : ∀ cell ∈ shape.cells, shape.columns.1.val ≤ cell.col.val ∧
    cell.col.val < shape.columns.1.val + width.val
  last : ∃ cell ∈ shape.cells, cell.col.val = shape.columns.1.val + width.val - 1

theorem Normal.framed (normal : shape.Normal) (extent : shape.extent = .ok (height, width)) :
    shape.Framed height width := by
  obtain ⟨top, inTop, bottom, inBottom, left, inLeft, right, inRight, within, extent_iff⟩ := normal.exists_extent
  obtain ⟨_, _, _, _, start, inStart, _, _, _, colSpan, within'⟩ := Cell.exists_extremes normal.cells_ne_nil
  obtain ⟨tall, wide⟩ := (extent_iff height width).mp extent
  have first : shape.columns.1 = start.col := by rw [columns, colSpan, Option.getD_some]
  have same : start.col.val = left.col.val := by
    have before := (within start inStart).2.1
    have after := (within' left inLeft).2.1
    omega
  have highest : top.row.val ≤ 0 := (within (.of 0 0) (List.mem_of_head? normal.first)).1.1
  have lowest := normal.least inTop
  refine ⟨fun cell member => ?_, fun cell member => ?_, right, inRight, by rw [first]; omega⟩
  · have bounds := (within cell member).1
    omega
  · have bounds := (within cell member).2
    rw [first]
    omega

namespace Framed

variable (framed : shape.Framed height width)
include framed

theorem positive : 0 < height.val ∧ 0 < width.val := by
  obtain ⟨last, inLast, _⟩ := framed.last
  have row := framed.rows last inLast
  have col := framed.cols last inLast
  omega

/-- The box ends at a coordinate if the columns do not go up to the greatest one. -/
theorem exists_end_iff : (∃ past, shape.columns.1.add width = .ok past) ↔
    ∀ cell ∈ shape.cells, cell.col.val < 2147483647 := by
  have low := shape.columns.1.inRange
  obtain ⟨last, inLast, same⟩ := framed.last
  simp only [Coord.add, Coord.checked_eq_ok_iff]
  constructor
  · rintro ⟨past, sum⟩ cell member
    have bounds := (framed.cols cell member).2
    have fits := past.inRange
    omega
  · intro inside
    have bounds := framed.cols last inLast
    have fits := inside last inLast
    exact ⟨⟨shape.columns.1.val + width.val, by omega⟩, rfl⟩

end Framed

def lines (shape : Polyomino) (height width : Coord) : List String :=
  (List.range height.val.toNat).map fun (row : Nat) =>
    String.ofList ((List.range width.val.toNat).map fun (col : Nat) => shape.glyph row (shape.columns.1.val + col))

/-- A shape has a text if its extent fits and its columns do not go up to the greatest coordinate. -/
theorem Normal.text_eq_ok (normal : shape.Normal) : shape.text = .ok text ↔
    ∃ height width, shape.extent = .ok (height, width) ∧ (∀ cell ∈ shape.cells, cell.col.val < 2147483647) ∧
      text = String.join ((shape.lines height width).map (· ++ "\n")) := by
  rw [Polyomino.text, Outcome.bind_eq_ok, Prod.exists]
  refine exists_congr fun height => exists_congr fun width => and_congr_right fun extent => ?_
  have framed := normal.framed extent
  rw [← framed.exists_end_iff, lines, List.map_map]
  dsimp only
  rw [if_pos framed.positive.1, Outcome.bind_eq_ok]
  simp only [Outcome.pure_eq_ok, exists_and_right, eq_comm (b := text)]
  exact Iff.rfl

theorem isGlyph_glyph (row col : Int) : IsGlyph (shape.glyph row col) := by
  unfold glyph
  split
  · split
    · exact .inl rfl
    · exact .inr rfl
  · exact .inr rfl

theorem Normal.glyph_iff (normal : shape.Normal) {row col : Int} :
    shape.glyph row col = '#' ↔ shape.Has (row, col) := by
  unfold glyph
  split
  · rename_i r c atRow atCol
    obtain rfl := Coord.ofInt?_eq_some.mp atRow
    obtain rfl := Coord.ofInt?_eq_some.mp atCol
    change _ ↔ shape.Has (Cell.point ⟨r, c⟩)
    rw [has_point_iff, ← normal.contains_iff]
    split <;> simp_all
  · rename_i outside
    refine ⟨fun no => absurd no (by decide), fun ⟨cell, _, same⟩ => ?_⟩
    cases same
    exact absurd (Coord.ofInt?_eq_some.mpr rfl) (outside cell.row cell.col (Coord.ofInt?_eq_some.mpr rfl))

theorem fit_lines : ∀ line ∈ shape.lines height width, FitsWidth width.val.toNat line := by
  intro line member
  obtain ⟨row, _, rfl⟩ := List.mem_map.mp member
  refine ⟨by simp, fun char inside => ?_⟩
  rw [String.toList_ofList] at inside
  obtain ⟨col, _, rfl⟩ := List.mem_map.mp inside
  exact isGlyph_glyph _ _

theorem linesOf_lines :
    linesOf (String.join ((shape.lines height width).map (· ++ "\n"))) = shape.lines height width := by
  refine linesOf_joined fun line member => ⟨fun feed => ?_, fun ret => ?_⟩
  · exact absurd ((fit_lines line member).2 _ feed) (by decide)
  · exact absurd ((fit_lines line member).2 _ ret) (by decide)

theorem Framed.isDrawing (framed : shape.Framed height width) : IsDrawing (shape.lines height width) := by
  have positive := framed.positive
  refine ⟨List.ne_nil_of_length_pos ?_, width.val.toNat, by omega, fit_lines⟩
  rw [lines, List.length_map, List.length_range]
  omega

theorem Framed.glyphAt_iff (framed : shape.Framed height width) (normal : shape.Normal) {row col : Nat} :
    glyphAt (shape.lines height width) row col = some '#' ↔ shape.Has (row, shape.columns.1.val + col) := by
  have inside : shape.Has (row, shape.columns.1.val + col) → row < height.val.toNat ∧ col < width.val.toNat := by
    rintro ⟨cell, member, same⟩
    have rows := framed.rows cell member
    have cols := framed.cols cell member
    rw [Cell.point, Prod.mk.injEq] at same
    omega
  rw [← normal.glyph_iff] at inside ⊢
  by_cases inRow : row < height.val.toNat
  · by_cases inCol : col < width.val.toNat
    · simp [glyphAt, lines, inRow, inCol]
    · simp [glyphAt, lines, inRow, inCol, mt inside (by omega)]
  · simp [glyphAt, lines, inRow, mt inside (by omega)]

section Board

variable (framed : shape.Framed height width) (normal : shape.Normal)
  (drawn : board.DrawnBy (shape.lines height width))
include framed normal drawn

/-- The board is shaded where the shape has its cells, if the columns are counted from the first one on. -/
theorem exists_shaded_iff {point : ℤ × ℤ} : (∃ cell ∈ board.shadedCells, cell.point = point) ↔
    ∃ own ∈ shape.cells, own.point + (0, -shape.columns.1.val) = point := by
  simp only [Board.mem_shadedCells, Board.isShaded_iff_shadedAt, drawn.shadedAt, framed.glyphAt_iff normal]
  constructor
  · rintro ⟨cell, ⟨row, col, ⟨rows, cols⟩, own, member, same⟩, rfl⟩
    refine ⟨own, member, ?_⟩
    rw [same, Cell.point, rows, cols, Prod.mk_add_mk, Prod.mk.injEq]
    omega
  · rintro ⟨own, member, rfl⟩
    have inRows := framed.rows own member
    have inCols := framed.cols own member
    have fits := width.inRange
    refine ⟨⟨own.row, ⟨own.col.val - shape.columns.1.val, by omega⟩⟩, ⟨own.row.val.toNat,
      (own.col.val - shape.columns.1.val).toNat, ⟨?_, ?_⟩, own, member, ?_⟩, ?_⟩
    · dsimp only
      omega
    · dsimp only
      omega
    · rw [Cell.point, Prod.mk.injEq]
      omega
    · rw [Cell.point, Cell.point, Prod.mk_add_mk, Prod.mk.injEq]
      dsimp only
      omega

theorem ofCells_shadedCells : ofCells board.shadedCells = .ok shape := by
  have moved (point : ℤ × ℤ) : (∃ cell ∈ board.shadedCells, cell.point = point) ↔
      ∃ own ∈ shape.cells, own.point + (0, -shape.columns.1.val) = point := exists_shaded_iff framed normal drawn
  have some : board.shadedCells ≠ [] := by
    obtain ⟨own, member⟩ := List.exists_mem_of_ne_nil _ normal.cells_ne_nil
    obtain ⟨cell, listed, _⟩ := (moved _).mpr ⟨own, member, rfl⟩
    exact List.ne_nil_of_mem listed
  obtain ⟨again, made⟩ := exists_ofCells_of_nonneg some fun cell listed => by
    have bounds := Board.contains_iff.mp (Board.contains_of_isShaded (Board.mem_shadedCells.mp listed))
    exact ⟨bounds.1.1, bounds.2.1⟩
  rw [made, (eq_iff_shifted normal.ofCells_cells made).mpr ⟨_, moved⟩]

end Board

/-- The lines of the text of a shape are read as a board of the size of its extent whose cells make the shape. -/
theorem Normal.exists_read (normal : shape.Normal) (shown : shape.text = .ok text) : ∃ board height width,
    (Draft.ofRows (linesOf text)).build = .ok board ∧ shape.extent = .ok (height, width) ∧
      (board.rows = height.val ∧ board.cols = width.val) ∧ ofCells board.shadedCells = .ok shape := by
  obtain ⟨height, width, extent, _, rfl⟩ := normal.text_eq_ok.mp shown
  have framed := normal.framed extent
  obtain ⟨board, drawn, _, built⟩ := Draft.exists_drawnBy framed.isDrawing
  have tall : (shape.lines height width).length = height.val.toNat := by simp [lines]
  have wide : board.cols = width.val.toNat := by
    obtain ⟨line, member⟩ := List.exists_mem_of_ne_nil _ framed.isDrawing.1
    exact (drawn.fit line member).1.symm.trans (fit_lines line member).1
  have positive := framed.positive
  have rows := drawn.height
  refine ⟨board, height, width, ?_, extent, by omega, ofCells_shadedCells framed normal drawn⟩
  rw [linesOf_lines, built]

/-- Every shape whose extent fits and whose columns stay below the greatest coordinate has a text. The lines of the text
are read as a board: it has the size of the extent, its shaded cells make the shape again, and no other shape has that
text. -/
theorem picture_faithful (built : shape.Built) (extent : shape.extent = .ok (height, width))
    (inside : ∀ cell ∈ shape.cells, cell.col.val < 2147483647) : ∃ text board, shape.text = .ok text ∧
      (Draft.ofRows (linesOf text)).build = .ok board ∧ (board.rows = height.val ∧ board.cols = width.val) ∧
      ofCells board.shadedCells = .ok shape ∧
      ∀ other : Polyomino, other.Built → other.text = .ok text → other = shape := by
  have shown := built.normal.text_eq_ok.mpr ⟨height, width, extent, inside, rfl⟩
  obtain ⟨board, height', width', read, extent', size, again⟩ := built.normal.exists_read shown
  cases extent.symm.trans extent'
  refine ⟨_, board, shown, read, size, again, fun other otherBuilt same => ?_⟩
  obtain ⟨board', _, _, read', _, _, again'⟩ := otherBuilt.normal.exists_read same
  cases read.symm.trans read'
  exact Except.ok.inj (again'.symm.trans again)

/-- Two cells with an empty row between them, the lower one to the left. -/
def partedShape : Polyomino := ⟨[.of 0 0, .of 2 (-1)]⟩

theorem picture_faithful_parted : partedShape.text = .ok ".#\n..\n#.\n" ∧
    ∃ board, (Draft.ofRows [".#", "..", "#."]).build = .ok board ∧ (board.rows = 3 ∧ board.cols = 2) ∧
      ofCells board.shadedCells = .ok partedShape ∧
      ∀ other : Polyomino, other.Built → other.text = .ok ".#\n..\n#.\n" → other = partedShape := by
  have made : ofCells [.of 4 (-3), .of 2 (-2)] = .ok partedShape := by decide
  have extent : partedShape.extent = .ok (.of 3, .of 2) := by decide
  have drawn : partedShape.text = .ok ".#\n..\n#.\n" := by decide
  obtain ⟨text, board, shown, read, size, again, only⟩ := picture_faithful (.ofCells made) extent (by decide)
  cases drawn.symm.trans shown
  exact ⟨drawn, board, read, ⟨Int.ofNat_inj.mp size.1, Int.ofNat_inj.mp size.2⟩, again, only⟩

end GridPuzzle.Polyomino
