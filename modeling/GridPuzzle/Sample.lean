import GridPuzzle.Polyomino.Catalog
import GridPuzzle.Template.Block
import GridPuzzle.Template.Connection
import GridPuzzle.Template.Piece

/-!
A sample puzzle: a connected wall of tetrominoes that leaves out no block of two by two cells and keeps
clear of the clue cells.
-/
namespace GridPuzzle.Sample

def rows : Coord := .of 5

def cols : Coord := .of 5

def clues : List Cell := [.of 0 0, .of 2 2, .of 4 3]

/-- Register shapes under one name with the numbers from `id` on. -/
def registerAll (color : Color) (id : Nat) (memo : Memo) : List Polyomino → Except Error Program
  | [] => pure .empty
  | shape :: rest => do
    let entry : Template.Registration := ⟨"tetromino", id, color, .grid, .side, true⟩
    let (registered, memo) := entry.register shape.cells memo
    let first ← registered
    let others ← registerAll color (id + 1) memo rest
    pure (first ++ others)

def program : Except Error Program := do
  let black ← Color.ofName "black"
  let grid ← Template.grid rows cols
  let shading ← Template.shade black .grid
  let block ← Template.noBlock (.of 2) (.of 2) black none
  let pieces ← registerAll black 0 .empty ((Catalog.ofSize 4).map Prod.snd)
  let clear ← clues.mapM fun clue => Template.noBlock (.of 1) (.of 1) black (some clue)
  pure (grid ++ shading ++ Template.neighbors .side false ++
    Template.connected black .side (some (rows, cols)) ++ block ++ pieces ++
    Template.coveredByPieces "tetromino" black .grid ++ clear.foldl (· ++ ·) .empty ++
    Template.display "black" 2)

end GridPuzzle.Sample
