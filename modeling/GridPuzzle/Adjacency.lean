import GridPuzzle.Side

/-!
Kinds of adjacency: which cells count as neighbors. The gated kinds refine sharing a side by walls or
by the course of a path, which the geometry of two cells alone does not show.
-/
namespace GridPuzzle

inductive Adjacency
  | side
  /-- Cells that share only a corner. -/
  | corner
  | around
  /-- Cells that share a side without a wall on it. -/
  | walled
  | path
  | directedPath
  deriving DecidableEq, Repr

namespace Adjacency

def all : List Adjacency := [.side, .corner, .around, .walled, .path, .directedPath]

def name : Adjacency → String
  | .side => "4"
  | .corner => "x"
  | .around => "8"
  | .walled => "edge"
  | .path => "loop"
  | .directedPath => "loop_directed"

/-- The name as one word of a label: without an underscore, it cannot run into the next word. -/
def word : Adjacency → String
  | .directedPath => "loopdirected"
  | kind => kind.name

def ofName (name : String) : Except Error Adjacency :=
  match all.find? (·.name == name) with
  | some kind => .ok kind
  | none => .error (.unsupportedAdjacency name)

def relation (kind : Adjacency) : String := "adj_" ++ kind.name

/-- Whether the two cells are neighbors as far as their places go. -/
def touches (kind : Adjacency) (a b : Cell) : Except Error Bool :=
  match kind with
  | .corner => a.sharesCorner b
  | .around => do if ← a.sharesSide b then pure true else a.sharesCorner b
  | .side | .walled | .path | .directedPath => a.sharesSide b

end Adjacency

end GridPuzzle
