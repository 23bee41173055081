import GridPuzzle.Board.Basic
import GridPuzzle.Polyomino.Basic

/-!
Occurrences of polyominoes: the cells at which some orientation lies on shaded cells that hold together.
-/
namespace GridPuzzle.Board

/-- Whether the cells of each pair that touch by their places are neighbors on the board. -/
def holdTogether (board : Board) (kind : Adjacency) : List (Cell × Cell) → Except Error Bool
  | [] => pure true
  | (a, b) :: rest => do
    let linked ← if ← kind.touches a b then board.adjacent a b kind else pure true
    if linked then board.holdTogether kind rest else pure false

/-- Whether one of the steps leads to a shaded neighbor that is none of the cells. -/
def isTouched (board : Board) (kind : Adjacency) (cells : List Cell) :
    List (Cell × Cell) → Except Error Bool
  | [] => pure false
  | (cell, offset) :: rest => do
    let next ← cell.shift offset
    let touched ← if next ∉ cells ∧ board.isShaded next then board.adjacent cell next kind
      else pure false
    if touched then pure true else board.isTouched kind cells rest

/-- Whether a shape occurs at a root. If it is not loose, no other shaded cell may touch it. -/
def occursAt (board : Board) (kind : Adjacency) (loose : Bool) (root : Cell) (shape : Polyomino) :
    Except Error Bool := do
  let cells ← shape.cells.mapM root.shift
  if cells.all board.isShaded then
    if ← board.holdTogether kind (Cell.pairs cells) then
      if loose then pure true else do
        let touched ← board.isTouched kind cells (Cell.steps cells)
        pure (!touched)
    else pure false
  else pure false

def occurringAt (board : Board) (kind : Adjacency) (loose : Bool) (root : Cell) :
    List (Polyomino × Nat) → Except Error (List Nat)
  | [] => pure []
  | (shape, index) :: rest => do
    let occurs ← board.occursAt kind loose root shape
    let others ← board.occurringAt kind loose root rest
    pure (if occurs then index :: others else others)

def occurrences (board : Board) (shapes : List Polyomino) (kind : Adjacency) (loose : Bool) :
    Except Error (List (Cell × Nat)) := do
  let found ← board.locations.mapM fun root => do
    let indices ← board.occurringAt kind loose root shapes.zipIdx
    pure (indices.map (root, ·))
  pure found.flatten

end GridPuzzle.Board
