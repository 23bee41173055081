import GridPuzzle.Coord

/-!
Cells of the plane, in reading order: by row, then by column. A cell also serves as an offset between
two cells. A set of cells is kept as a list that `sort` has put in strictly increasing order.
-/
namespace GridPuzzle

structure Cell where
  row : Coord
  col : Coord
  deriving DecidableEq

namespace Cell

/-- The cell at two small numbers. -/
def of (row col : Int8) : Cell := ⟨.of row, .of col⟩

instance : LT Cell :=
  ⟨fun a b => a.row.val < b.row.val ∨ (a.row.val = b.row.val ∧ a.col.val < b.col.val)⟩

instance (a b : Cell) : Decidable (a < b) :=
  inferInstanceAs (Decidable (a.row.val < b.row.val ∨ (a.row.val = b.row.val ∧ a.col.val < b.col.val)))

def shift (cell offset : Cell) : Except Error Cell := do
  let row ← cell.row.add offset.row
  let col ← cell.col.add offset.col
  pure ⟨row, col⟩

def sharesSide (a b : Cell) : Except Error Bool := do
  let rows ← (← a.row.sub b.row).abs
  let cols ← (← a.col.sub b.col).abs
  let distance ← rows.add cols
  pure (distance.val == 1)

/-- Whether the two cells share a corner and no side. The columns are compared only if the rows fit. -/
def sharesCorner (a b : Cell) : Except Error Bool := do
  let rows ← (← a.row.sub b.row).abs
  if rows.val = 1 then
    let cols ← (← a.col.sub b.col).abs
    pure (cols.val == 1)
  else pure false

/-- Put a cell into its place in an increasing list, which is left alone if it has the cell. -/
def insert (cell : Cell) : List Cell → List Cell
  | [] => [cell]
  | head :: rest =>
    if cell < head then cell :: head :: rest
    else if cell = head then head :: rest
    else head :: insert cell rest

def sort (cells : List Cell) : List Cell := cells.foldr insert []

def pairs : List Cell → List (Cell × Cell)
  | [] => []
  | first :: rest => rest.map (first, ·) ++ pairs rest

end Cell

end GridPuzzle
