import GridPuzzle.Adjacency
import GridPuzzle.Scope

/-!
The rules that define which cells of the grid are neighbors, for each kind of adjacency.
-/
namespace GridPuzzle

def Label.Part.ofAdjacency (kind : Adjacency) : Part := .word kind.word

def Adjacency.joins (kind : Adjacency) (a b : Place) : Atom := ⟨kind.relation, a.args ++ b.args⟩

/-- The path fact that a cell is left, entered or passed through a side. -/
def Side.fact (side : Side) (relation : String) (place : Place) : Atom :=
  ⟨relation, place.args ++ [.str side.letter]⟩

namespace Template

def distance (a b : Term) : Expression := .abs (.sub a b)

def oneStepApart : List Literal :=
  [Test.compare .eq (.add (distance Place.here.row Place.other.row) (distance Place.here.col Place.other.col))
    (Term.int 1)]

def diagonallyApart : List Literal :=
  [Test.compare .eq (distance Place.here.row Place.other.row) (Term.int 1),
    Test.compare .eq (distance Place.here.col Place.other.col) (Term.int 1)]

def joinedWhen (kind : Adjacency) (condition : List Literal) : Statement :=
  .rule (kind.joins .here .other) ([.test (onGrid .here), .test (onGrid .other)] ++ condition)

def symmetric (kind : Adjacency) : Statement :=
  .rule (kind.joins .here .other) [.holds (kind.joins .other .here)]

/-- A cell is joined to the one behind a side unless there is a wall in between. -/
def joinedWithoutWall (side : Side) (wall : String) : Statement :=
  let next := Place.here.step side.offset
  .rule (Adjacency.walled.joins .here next) [onGrid .here, onGrid next, .fails (.cell wall next)]

/-- A cell is joined to the one behind a side through which the path leads. -/
def joinedByPath (kind : Adjacency) (relation : String) (side : Side) : Statement :=
  let next := Place.here.step side.offset
  .rule (kind.joins .here next) [onGrid .here, onGrid next, .holds (side.fact relation .here)]

def joins (kind : Adjacency) : List Statement :=
  match kind with
  | .side => [joinedWhen kind oneStepApart]
  | .corner => [joinedWhen kind diagonallyApart]
  | .around => [joinedWhen kind oneStepApart, joinedWhen kind diagonallyApart]
  | .walled =>
    [joinedWithoutWall .right Relation.wallLeft, joinedWithoutWall .down Relation.wallTop,
      symmetric kind]
  | .path => Side.all.map (joinedByPath kind Relation.passes) ++ [symmetric kind]
  | .directedPath => Side.all.map (joinedByPath kind Relation.leaves) ++ [symmetric kind]

/-- The relation of a kind of adjacency; on request each cell is its own neighbor too. -/
def neighbors (kind : Adjacency) (includeSelf : Bool) : Program :=
  let self : List Statement :=
    if includeSelf then [.rule (kind.joins .here .here) [onGrid .here]] else []
  ⟨joins kind ++ self⟩

end Template

end GridPuzzle
