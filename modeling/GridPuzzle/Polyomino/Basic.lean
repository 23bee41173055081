import GridPuzzle.Cell

/-!
Polyominoes: finite shapes of cells, wherever they lie. A shape is normal if its cells are in strictly
increasing order and the first of them is the origin. Every operation here puts its result into that form,
so that shapes which differ by a shift are equal.
-/
namespace GridPuzzle

structure Polyomino where
  cells : List Cell
  deriving DecidableEq

namespace Polyomino

/-- Move cells by the shift that takes the given one to the origin. -/
def moveToOrigin (least : Cell) (cells : List Cell) : Except Error Polyomino := do
  let row ← least.row.neg
  let col ← least.col.neg
  let cells ← cells.mapM fun cell => cell.shift ⟨row, col⟩
  pure ⟨cells⟩

/-- Move an increasing list of cells so that its first cell is the origin. -/
def settle : List Cell → Except Error Polyomino
  | [] => .error .emptyShape
  | least :: rest => moveToOrigin least (least :: rest)

/-- The shape of some cells in any order, where repeated ones count once. -/
def ofCells (cells : List Cell) : Except Error Polyomino := settle (Cell.sort cells)

/-- Map the cells of a shape. As a shape has some cells, its image has a first one, and nothing checks that. -/
def mapCells (move : Cell → Except Error Cell) (shape : Polyomino) : Except Error Polyomino := do
  let cells ← shape.cells.mapM move
  let sorted := Cell.sort cells
  moveToOrigin (sorted.headD (.of 0 0)) sorted

def rotate (shape : Polyomino) : Except Error Polyomino :=
  shape.mapCells fun cell => do pure ⟨← cell.col.neg, cell.row⟩

/-- Turn upside down, each column in itself. -/
def reflect (shape : Polyomino) : Except Error Polyomino :=
  shape.mapCells fun cell => do pure ⟨← cell.row.neg, cell.col⟩

/-- Map by a matrix, given row by row. -/
def transform (a b c d : Coord) (shape : Polyomino) : Except Error Polyomino :=
  shape.mapCells fun cell => do
    let row ← (← a.mul cell.row).add (← b.mul cell.col)
    let col ← (← c.mul cell.row).add (← d.mul cell.col)
    pure ⟨row, col⟩

def size (shape : Polyomino) : Nat := shape.cells.length

/-- Look for a cell in an increasing list: half of it is left out again and again, by the cell in the middle, and
what is left at the end starts with the cell or does not have it. -/
def seek (cell : Cell) : Nat → List Cell → Bool
  | 0, cells => cells.head? = some cell
  | halvings + 1, cells =>
    let half := cells.length / 2
    let later := cells.drop half
    if later.head?.all (cell < ·) then seek cell halvings (cells.take half) else seek cell halvings later

/-- As many halvings as there are cells leave one of them at most. -/
def contains (shape : Polyomino) (cell : Cell) : Bool := seek cell shape.size shape.cells

def columns (shape : Polyomino) : Coord × Coord :=
  (Coord.span? (shape.cells.map Cell.col)).getD (.of 0, .of 0)

def lastRow (shape : Polyomino) : Coord :=
  ((Coord.span? (shape.cells.map Cell.row)).getD (.of 0, .of 0)).2

def extent (shape : Polyomino) : Except Error (Coord × Coord) := do
  let height ← shape.lastRow.add (.of 1)
  let width ← (← shape.columns.2.sub shape.columns.1).add (.of 1)
  pure (height, width)

def glyph (shape : Polyomino) (row col : Int) : Char :=
  match Coord.ofInt? row, Coord.ofInt? col with
  | some row, some col => if shape.contains ⟨row, col⟩ then '#' else '.'
  | _, _ => '.'

/-- The box around the cells, a line for each row. The box has to end at a coordinate. -/
def text (shape : Polyomino) : Except Error String := do
  let (height, width) ← shape.extent
  let first := shape.columns.1
  if 0 < height.val then
    let _ ← first.add width
  let line (row : Nat) : String :=
    let glyphs := (List.range width.val.toNat).map fun (col : Nat) => shape.glyph row (first.val + col)
    String.ofList glyphs ++ "\n"
  pure (String.join ((List.range height.val.toNat).map line))

end Polyomino

end GridPuzzle
