import GridPuzzle.Scope
import GridPuzzle.Side

/-!
The facts that set up a puzzle: its grid, its areas, the walls between cells, and what is shown of an
answer.
-/
namespace GridPuzzle.Template

/-- A grid has at least one row and one column. -/
def requireCells (rows cols : Coord) : Except Error Unit :=
  if rows.val ≤ 0 ∨ cols.val ≤ 0 then .error (.invalidGrid rows.val cols.val) else .ok ()

def last (size : Coord) : Except Error Coord := size.sub (.of 1)

def grid (rows cols : Coord) : Except Error Program := do
  requireCells rows cols
  let bottom ← last rows
  let right ← last cols
  pure ⟨[.fact (.cell Relation.grid ⟨.range 0 bottom.val, .range 0 right.val⟩)]⟩

def area (id : Int) (cells : List Cell) : Program :=
  ⟨cells.map fun cell => .fact ⟨Relation.area, .int id :: (Place.ofCell cell).args⟩⟩

/-- Show a relation in answers. -/
def display (item : String) (arity : Nat) : Program :=
  ⟨[.directive ("#show " ++ item ++ "/" ++ arity.repr)]⟩

/-- Say that a relation may have no facts on purpose. -/
def declare (item : String) (arity : Nat) : Program :=
  ⟨[.directive ("#defined " ++ item ++ "/" ++ arity.repr)]⟩

/-- Walls between cells are a free choice; around the grid there always are walls. -/
def walls (rows cols : Coord) : Except Error Program := do
  requireCells rows cols
  let bottom ← last rows
  let right ← last cols
  let row : Term := .var "R" 0
  let col : Term := .var "C" 0
  let free (wall : String) (inner : Term) : Statement :=
    .choice [⟨.cell wall .here, []⟩] none [onGrid .here, Test.compare .gt inner (Term.int 0)]
  let border (wall : String) (side cell : Place) : Statement :=
    .rule (.cell wall side) [onGrid cell]
  pure ⟨[free Relation.wallLeft col, free Relation.wallTop row,
    border Relation.wallLeft ⟨row, .int 0⟩ ⟨row, .int 0⟩,
    border Relation.wallLeft ⟨row, .int cols.val⟩ ⟨row, .int right.val⟩,
    border Relation.wallTop ⟨.int 0, col⟩ ⟨.int 0, col⟩,
    border Relation.wallTop ⟨.int rows.val, col⟩ ⟨.int bottom.val, col⟩]⟩

def sides (allowed : List Side) : Program :=
  ⟨allowed.map fun side => .fact ⟨Relation.side, [.str side.letter]⟩⟩

end GridPuzzle.Template
