import GridPuzzle.Adjacency

/-!
Boards: the shading of a grid, with walls between some of its cells. The rows and columns of a board
count from zero, so a cell is on the board if its coordinates are below their numbers.
-/
namespace GridPuzzle

structure Board where
  rows : Nat
  cols : Nat
  positive : 0 < rows ∧ 0 < cols
  shading : Vector (Vector Bool cols) rows
  /-- Pairs of cells with a wall between them, in either order. -/
  walls : List (Cell × Cell)

namespace Board

/-- The board without walls whose shaded cells are those that a test of row and column picks. -/
def ofShading (rows cols : Nat) (positive : 0 < rows ∧ 0 < cols) (shaded : Nat → Nat → Bool) : Board :=
  ⟨rows, cols, positive, .ofFn fun row => .ofFn fun col => shaded row col, []⟩

def blank (rows cols : Nat) (positive : 0 < rows ∧ 0 < cols) : Board :=
  ofShading rows cols positive fun _ _ => false

def index? (board : Board) (cell : Cell) : Option (Fin board.rows × Fin board.cols) :=
  if inside : 0 ≤ cell.row.val ∧ 0 ≤ cell.col.val ∧ cell.row.val.toNat < board.rows ∧
      cell.col.val.toNat < board.cols then
    some (⟨cell.row.val.toNat, inside.2.2.1⟩, ⟨cell.col.val.toNat, inside.2.2.2⟩)
  else none

def contains (board : Board) (cell : Cell) : Bool := (board.index? cell).isSome

def isShaded (board : Board) (cell : Cell) : Bool :=
  match board.index? cell with
  | some (row, col) => board.shading[row][col]
  | none => false

def isWalled (board : Board) (a b : Cell) : Bool :=
  (a, b) ∈ board.walls ∨ (b, a) ∈ board.walls

def shadeAt (board : Board) (row : Fin board.rows) (col : Fin board.cols) : Board :=
  { board with shading := board.shading.set row (board.shading[row].set col true) }

/-- Shade the cell at a row and a column, if the board has it. -/
def shadePlace (board : Board) (row col : Nat) : Board :=
  if inside : row < board.rows ∧ col < board.cols then board.shadeAt ⟨row, inside.1⟩ ⟨col, inside.2⟩ else board

def addWall (board : Board) (a b : Cell) : Board := { board with walls := (a, b) :: board.walls }

def locations (board : Board) : List Cell :=
  ((List.range board.rows).filterMap fun (row : Nat) => Coord.ofInt? row).flatMap fun row =>
    ((List.range board.cols).filterMap fun (col : Nat) => Coord.ofInt? col).map fun col => ⟨row, col⟩

def shadedCells (board : Board) : List Cell := board.locations.filter board.isShaded

/-- Whether two cells on the board are neighbors. A board knows its walls but no paths. -/
def adjacent (board : Board) (a b : Cell) (kind : Adjacency) : Except Error Bool :=
  if board.contains a && board.contains b then
    match kind with
    | .side | .corner | .around => kind.touches a b
    | .walled => do
      let touches ← kind.touches a b
      pure (touches && !board.isWalled a b)
    | .path | .directedPath => .error (.unsupportedAdjacency kind.name)
  else pure false

def glyph (shaded : Bool) : Char := if shaded then '#' else '.'

def text (board : Board) : String :=
  String.join (board.shading.toList.map fun row => String.ofList (row.toList.map glyph) ++ "\n")

end Board

end GridPuzzle
