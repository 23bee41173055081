import GridPuzzle.Board.Basic
import GridPuzzle.Flood

/-!
Groups of shaded cells: what neighbors join, and what lies in a straight line of sight.
-/
namespace GridPuzzle.Board

def linksAlong (board : Board) (kind : Adjacency) (cell : Cell) : List Cell → Except Error (List Cell)
  | [] => pure []
  | offset :: rest => do
    let next ← cell.shift offset
    let linked ← if board.isShaded next then board.adjacent cell next kind else pure false
    let others ← board.linksAlong kind cell rest
    pure (if linked then next :: others else others)

def graph (board : Board) (kind : Adjacency) : Except Error (List (Cell × List Cell)) :=
  board.shadedCells.mapM fun cell => do
    let links ← board.linksAlong kind cell Cell.surroundings
    pure (cell, links)

def links (graph : List (Cell × List Cell)) (cell : Cell) : List Cell := (graph.lookup cell).getD []

def joinedTo (graph : List (Cell × List Cell)) (sources : List Cell) : List Cell :=
  let cells := graph.map Prod.fst
  Cell.sort (Flood.gather (links graph) (Flood.taken sources cells) (Flood.left sources cells))

/-- The shaded cells joined to a source; none, if it is not shaded. -/
def reachable (board : Board) (source : Cell) (kind : Adjacency) : Except Error (List Cell) := do
  let graph ← board.graph kind
  pure (joinedTo graph [source])

def components (board : Board) (kind : Adjacency) : Except Error (List (List Cell)) := do
  let graph ← board.graph kind
  pure ((Flood.groups (links graph) (graph.map Prod.fst)).map Cell.sort)

def isConnected (board : Board) (kind : Adjacency) : Except Error Bool := do
  let groups ← board.components kind
  pure (groups.length ≤ 1)

/-- The cells seen from a cell through one side, up to the first that is not shaded or not a neighbor
of the one before it. -/
def ray (board : Board) (kind : Adjacency) (side : Side) : Nat → Cell → Except Error (List Cell)
  | 0, _ => pure []
  | steps + 1, cell => do
    let next ← side.neighbor cell
    let seen ← if board.isShaded next then board.adjacent cell next kind else pure false
    if seen then
      let others ← board.ray kind side steps next
      pure (next :: others)
    else pure []

/-- The shaded cells seen from a source through its four sides, the source included. A ray leaves the
board before it has as many steps as the board has rows and columns. -/
def bulb (board : Board) (source : Cell) (kind : Adjacency) : Except Error (List Cell) :=
  if board.isShaded source then do
    let rays ← Side.all.mapM fun side => board.ray kind side (board.rows + board.cols) source
    pure (Cell.sort (source :: rays.flatten))
  else pure []

end GridPuzzle.Board
