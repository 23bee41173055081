import GridPuzzle.Color
import GridPuzzle.Polyomino.Memo
import GridPuzzle.Template.Neighbors
import GridPuzzle.Template.Shading

/-!
Polyominoes among the cells of a color. Shapes are registered under a name and a number. The detector
holds of the root of an occurrence, the number of the shape and the number of its orientation; the
covering relation holds likewise of every cell of the occurrence.
-/
namespace GridPuzzle.Template

def detector (name : String) (color : Color) (scope : Scope) : String :=
  Label.join "shape" [.ofScope scope, .word name, .ofColor color]

def covering (name : String) (color : Color) (scope : Scope) : String :=
  Label.join "belong_to_shape" [.ofScope scope, .word name, .ofColor color]

/-- A cell has a neighbor of the color. -/
def touching (name : String) (color : Color) (kind : Adjacency) : String :=
  Label.join "touch_shape" [.word name, .ofAdjacency kind, .ofColor color]

/-- What is registered: a shape of a color by its number under a name, in a scope and with the
adjacency that holds its cells together. An occurrence of a shape that is not loose must not touch
other cells of the color. -/
structure Registration where
  name : String
  id : Int
  color : Color
  scope : Scope
  kind : Adjacency
  loose : Bool

def touchingPairs (kind : Adjacency) : List (Cell × Cell) → Except Error (List (Cell × Cell))
  | [] => pure []
  | (a, b) :: rest => do
    let touches ← kind.touches a b
    let others ← touchingPairs kind rest
    pure (if touches then (a, b) :: others else others)

/-- The steps that lead from a cell of the shape to a neighbor that the shape does not cover, as pairs of
the two cells. -/
def stepsOut (kind : Adjacency) (shape : Polyomino) :
    List (Cell × Cell) → Except Error (List (Cell × Cell))
  | [] => pure []
  | (cell, offset) :: rest => do
    let next ← cell.shift offset
    let touches ← kind.touches cell next
    let others ← stepsOut kind shape rest
    pure (if touches && !shape.contains next then (cell, next) :: others else others)

/-- The way back. A step up or to the left is written by it, behind a minus sign. -/
def wayBack (offset : Cell) : Except Error Cell := do
  let row ← offset.row.neg
  let col ← offset.col.neg
  pure ⟨row, col⟩

namespace Registration

def touchLabel (entry : Registration) : String := touching entry.name entry.color entry.kind

def cellsMatch (entry : Registration) (shape : Polyomino) : List Literal :=
  shape.cells.flatMap fun cell =>
    let place := Place.here.step cell
    [.test (entry.scope.covers place), .test (entry.color.on place)]

/-- The rules for one orientation: what the detector needs, and which cells it covers. -/
def orientationRules (entry : Registration) (index : Nat) (shape : Polyomino) :
    Except Error (List Statement) := do
  let linked ← touchingPairs entry.kind (Cell.pairs shape.cells)
  let outer ← if entry.loose then pure [] else stepsOut entry.kind shape (Cell.steps shape.cells)
  let _ ← outer.mapM fun (_, next) => wayBack next
  let joined := linked.map fun (a, b) =>
    Literal.holds (entry.kind.joins (Place.here.step a) (Place.here.step b))
  let apart := outer.map fun (a, b) =>
    Literal.fails ⟨entry.touchLabel, (Place.here.step a).args ++ (Place.here.step b).args⟩
  let keyed (relation : String) (place : Place) : Atom :=
    entry.scope.keyed relation (place.args ++ [.int entry.id, .ofNat index])
  let root := keyed (detector entry.name entry.color entry.scope) .here
  let covers := shape.cells.map fun cell =>
    let place := Place.here.step cell
    Statement.rule (keyed (covering entry.name entry.color entry.scope) place) [.holds root]
  pure (.rule root (entry.cellsMatch shape ++ joined ++ apart) :: covers)

/-- The rules for all orientations, numbered in their order. -/
def rules (entry : Registration) (shapes : List Polyomino) : Except Error Program := do
  let touch : List Statement := if entry.loose then [] else
    [.rule ⟨entry.touchLabel, Place.here.args ++ Place.other.args⟩
      [.holds (entry.kind.joins .here .other), entry.color.on .other]]
  let oriented ← shapes.zipIdx.mapM fun (shape, index) => entry.orientationRules index shape
  pure ⟨touch ++ oriented.flatten⟩

/-- Register the shape of some cells in all its orientations. They are remembered even if the rules
cannot be built. -/
def register (entry : Registration) (cells : List Cell) (memo : Memo) : Except Error Program × Memo :=
  match Polyomino.ofCells cells with
  | .error error => (.error error, memo)
  | .ok shape =>
    let (shapes, memo) := memo.orientations shape .full
    (shapes.bind entry.rules, memo)

end Registration

/-- Every cell of the color is covered by an occurrence of some shape of the name. -/
def coveredByPieces (name : String) (color : Color) (scope : Scope) : Program :=
  ⟨[.constraint [scope.covers .here, color.on .here,
    .fails (scope.keyed (covering name color scope) (Place.here.args ++ [.anon, .anon]))]]⟩

/-- The number of occurrences of the shapes of a name, or of one of them, meets the target in the scope. -/
def countPieces (target : Target) (name : String) (id : Option Int) (color : Color) (scope : Scope) :
    Program :=
  let row := Place.here.row
  let col := Place.here.col
  let orientation : Term := .var "V" 0
  let (tuple, shape) : List Term × Term := match id with
    | some id => ([row, col, orientation], .int id)
    | none => ([row, col, .var "I" 0, orientation], .var "I" 0)
  let occurrence := scope.keyed (detector name color scope) [row, col, shape, orientation]
  let misses := unmet target ⟨tuple.map .term, [.holds occurrence]⟩
  let body : List Literal := match scope with
    | .grid => [misses]
    | .area => [inArea Scope.areaVariable ⟨.anon, .anon⟩, misses]
  ⟨[.constraint body]⟩

end GridPuzzle.Template
