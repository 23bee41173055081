import Mathlib.Data.List.Pairwise
import GridPuzzle.Board.Basic
import GridPuzzle.Color
import GridPuzzle.Proofs.Cell

/-!
Boards seen cell by cell. A color picks the shaded cells of a board or the other ones, and with them
those of a board of the same size.
-/
namespace GridPuzzle

theorem Coord.ofInt?_eq_some {value : Int} {coord : Coord} :
    Coord.ofInt? value = some coord ↔ coord.val = value := by
  unfold Coord.ofInt?
  split
  · rename_i inRange
    rw [Option.some.injEq]
    exact ⟨fun same => same ▸ rfl, fun same => Coord.ext same.symm⟩
  · rename_i outside
    refine ⟨fun none => ?_, fun same => absurd (same ▸ coord.inRange) outside⟩
    cases none

namespace Board

variable {board : Board} {cell : Cell}

/-- Every cell on the board has cells around it: no row or column has the greatest coordinate. -/
def Bounded (board : Board) : Prop := board.rows ≤ 2147483647 ∧ board.cols ≤ 2147483647

theorem contains_iff : board.contains cell = true ↔
    (0 ≤ cell.row.val ∧ cell.row.val < board.rows) ∧ 0 ≤ cell.col.val ∧ cell.col.val < board.cols := by
  unfold contains index?
  split
  · rename_i inside
    simp only [Option.isSome_some, true_iff]
    omega
  · rename_i outside
    simp only [Option.isSome_none, Bool.false_eq_true, false_iff]
    omega

theorem index?_eq_some {row : Fin board.rows} {col : Fin board.cols} :
    board.index? cell = some (row, col) ↔ cell.row.val = row ∧ cell.col.val = col := by
  have inRow := row.isLt
  have inCol := col.isLt
  unfold index?
  split
  · rw [Option.some.injEq, Prod.mk.injEq, Fin.ext_iff, Fin.ext_iff]
    dsimp only
    omega
  · simp only [reduceCtorEq, false_iff]
    omega

theorem isShaded_at (board : Board) (row : Fin board.rows) (col : Fin board.cols)
    (rows : cell.row.val = row) (cols : cell.col.val = col) : board.isShaded cell = board.shading[row][col] := by
  simp only [isShaded, index?_eq_some.mpr ⟨rows, cols⟩]

theorem exists_index (inside : board.contains cell = true) :
    ∃ (row : Fin board.rows) (col : Fin board.cols), cell.row.val = row ∧ cell.col.val = col := by
  have bounds := contains_iff.mp inside
  refine ⟨⟨cell.row.val.toNat, by omega⟩, ⟨cell.col.val.toNat, by omega⟩, ?_, ?_⟩
  · change cell.row.val = (cell.row.val.toNat : Int)
    omega
  · change cell.col.val = (cell.col.val.toNat : Int)
    omega

theorem contains_of_isShaded (shaded : board.isShaded cell = true) : board.contains cell = true := by
  unfold isShaded at shaded
  unfold contains
  cases place : board.index? cell with
  | none => rw [place] at shaded; cases shaded
  | some found => rfl

/-- The board has a cell at the row and column, and it is shaded. -/
def ShadedAt (board : Board) (row col : Nat) : Prop :=
  ∃ (inRow : row < board.rows) (inCol : col < board.cols), board.shading[row][col] = true

theorem ext_of_shadedAt {board other : Board} (rows : board.rows = other.rows) (cols : board.cols = other.cols)
    (shaded : ∀ row col, board.ShadedAt row col ↔ other.ShadedAt row col) (walls : board.walls = other.walls) :
    board = other := by
  obtain ⟨r, c, positive, shading, _⟩ := board
  obtain ⟨_, _, _, shading', _⟩ := other
  cases rows
  cases cols
  cases walls
  have same : shading = shading' := by
    apply Vector.ext
    intro row inRow
    apply Vector.ext
    intro col inCol
    have here := shaded row col
    simp only [ShadedAt, inRow, inCol, exists_true_left] at here
    exact Bool.eq_iff_iff.mpr here
  rw [same]

theorem isShaded_iff_shadedAt : board.isShaded cell = true ↔
    ∃ row col : Nat, (cell.row.val = row ∧ cell.col.val = col) ∧ board.ShadedAt row col := by
  constructor
  · intro shaded
    obtain ⟨row, col, rows, cols⟩ := exists_index (contains_of_isShaded shaded)
    rw [isShaded_at board row col rows cols] at shaded
    exact ⟨row, col, ⟨rows, cols⟩, row.isLt, col.isLt, shaded⟩
  · rintro ⟨row, col, ⟨rows, cols⟩, inRow, inCol, shaded⟩
    rw [isShaded_at board ⟨row, inRow⟩ ⟨col, inCol⟩ rows cols]
    exact shaded

theorem not_shadedAt_blank {rows cols row col : Nat} (positive : 0 < rows ∧ 0 < cols) :
    ¬ (blank rows cols positive).ShadedAt row col := by
  simp [ShadedAt, blank, ofShading]

theorem shadedAt_shadeAt {row : Fin board.rows} {col : Fin board.cols} {r c : Nat} :
    (board.shadeAt row col).ShadedAt r c ↔ board.ShadedAt r c ∨ r = row ∧ c = col := by
  have inside : r = row ∧ c = col → r < board.rows ∧ c < board.cols := by omega
  by_cases here : r < board.rows ∧ c < board.cols
  · obtain ⟨inRow, inCol⟩ := here
    simp only [ShadedAt, shadeAt, inRow, inCol, exists_true_left, Fin.getElem_fin, Vector.getElem_set]
    by_cases sameRow : row.val = r
    · subst sameRow
      by_cases sameCol : col.val = c
      · simp [sameCol]
      · simp [sameCol, Ne.symm sameCol]
    · simp [sameRow, Ne.symm sameRow]
  · refine ⟨fun ⟨inRow, inCol, _⟩ => absurd ⟨inRow, inCol⟩ here, ?_⟩
    rintro (⟨inRow, inCol, _⟩ | same)
    · exact absurd ⟨inRow, inCol⟩ here
    · exact absurd (inside same) here

theorem shadedAt_shadePlace {row col r c : Nat} : (board.shadePlace row col).ShadedAt r c ↔
    board.ShadedAt r c ∨ (r = row ∧ c = col) ∧ row < board.rows ∧ col < board.cols := by
  unfold shadePlace
  split
  · rename_i inside
    rw [shadedAt_shadeAt, and_iff_left inside]
  · rename_i outside
    rw [or_iff_left fun both => outside both.2]

theorem mem_locations : cell ∈ board.locations ↔ board.contains cell = true := by
  rw [contains_iff]
  simp only [locations, List.mem_flatMap, List.mem_map, List.mem_filterMap, List.mem_range,
    Coord.ofInt?_eq_some]
  refine ⟨?_, ?_⟩
  · intro listed
    obtain ⟨row, ⟨r, inRow, rows⟩, col, ⟨c, inCol, cols⟩, rfl⟩ := listed
    dsimp only
    omega
  · intro bounds
    exact ⟨cell.row, ⟨cell.row.val.toNat, by omega, by omega⟩, cell.col,
      ⟨cell.col.val.toNat, by omega, by omega⟩, rfl⟩

private theorem coords_increasing (count : Nat) :
    ((List.range count).filterMap fun (number : Nat) => Coord.ofInt? number).Pairwise
      fun a b => a.val < b.val := by
  refine List.Pairwise.filterMap _ ?_ List.pairwise_lt_range
  intro a b less coord found coord' found'
  rw [Coord.ofInt?_eq_some] at found found'
  omega

theorem locations_increasing (board : Board) : Cell.Increasing board.locations := by
  refine List.pairwise_flatMap.mpr ⟨?_, ?_⟩
  · intro row _
    refine List.Pairwise.map _ ?_ (coords_increasing board.cols)
    exact fun a b less => .inr ⟨rfl, less⟩
  · apply (coords_increasing board.rows).imp
    intro a b less cell inA cell' inB
    obtain ⟨col, _, rfl⟩ := List.mem_map.mp inA
    obtain ⟨col', _, rfl⟩ := List.mem_map.mp inB
    exact .inl less

theorem mem_shadedCells : cell ∈ board.shadedCells ↔ board.isShaded cell = true := by
  rw [shadedCells, List.mem_filter, mem_locations]
  exact ⟨And.right, fun shaded => ⟨contains_of_isShaded shaded, shaded⟩⟩

theorem shadedCells_increasing (board : Board) : Cell.Increasing board.shadedCells :=
  (locations_increasing board).filter _

def SameSize (board other : Board) : Prop := board.rows = other.rows ∧ board.cols = other.cols

theorem SameSize.trans {board middle other : Board} (first : board.SameSize middle) (second : middle.SameSize other) :
    board.SameSize other := ⟨first.1.trans second.1, first.2.trans second.2⟩

theorem SameSize.contains {board other : Board} (same : board.SameSize other) (cell : Cell) :
    board.contains cell = other.contains cell := by
  rw [Bool.eq_iff_iff, contains_iff, contains_iff, same.1, same.2]

theorem SameSize.bounded {board other : Board} (same : board.SameSize other) (bounded : other.Bounded) :
    board.Bounded := by
  rw [Bounded, same.1, same.2]
  exact bounded

theorem sameSize_shadePlace (board : Board) (row col : Nat) : (board.shadePlace row col).SameSize board := by
  unfold shadePlace
  split <;> exact ⟨rfl, rfl⟩

def complement (board : Board) : Board :=
  { board with shading := board.shading.map fun row => row.map (!·) }

def full (board : Board) : Board :=
  { board with shading := board.shading.map fun row => row.map fun _ => true }

/-- The board that shades the cells of a color, if the color's relation holds of the shaded cells. -/
def colored (board : Board) : Color → Board
  | .positive _ => board
  | .negated _ => board.complement

def tinted (board : Board) : Option Color → Board
  | some color => board.colored color
  | none => board.full

theorem contains_colored (color : Color) : (board.colored color).contains cell = board.contains cell := by
  cases color <;> rfl

theorem bounded_colored (bounded : board.Bounded) (color : Color) : (board.colored color).Bounded := by
  cases color <;> exact bounded

theorem adjacent_tinted (color : Option Color) (a b : Cell) (kind : Adjacency) :
    (board.tinted color).adjacent a b kind = board.adjacent a b kind := by
  rcases color with _ | (_ | _) <;> rfl

theorem bounded_tinted (bounded : board.Bounded) (color : Option Color) : (board.tinted color).Bounded := by
  cases color with
  | none => exact bounded
  | some color => exact bounded_colored bounded color

theorem isShaded_complement : board.complement.isShaded cell = true ↔
    board.contains cell = true ∧ ¬ board.isShaded cell = true := by
  by_cases inside : board.contains cell = true
  · obtain ⟨row, col, rows, cols⟩ := exists_index inside
    have flipped : board.complement.isShaded cell = !board.shading[row][col] := by
      rw [isShaded_at board.complement row col rows cols]
      change ((board.shading.map fun row => row.map (!·))[row.val])[col.val] = _
      rw [Vector.getElem_map, Vector.getElem_map]
      rfl
    rw [flipped, isShaded_at board row col rows cols]
    simp [inside]
  · refine ⟨fun shaded => absurd (contains_of_isShaded shaded) inside, fun both => absurd both.1 inside⟩

theorem isShaded_full : board.full.isShaded cell = true ↔ board.contains cell = true := by
  refine ⟨contains_of_isShaded, fun inside => ?_⟩
  obtain ⟨row, col, rows, cols⟩ := exists_index inside
  rw [isShaded_at board.full row col rows cols]
  change ((board.shading.map fun row => row.map fun _ => true)[row.val])[col.val] = true
  rw [Vector.getElem_map, Vector.getElem_map]

end Board

end GridPuzzle
