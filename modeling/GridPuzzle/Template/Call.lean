import GridPuzzle.Template.Block
import GridPuzzle.Template.Loop
import GridPuzzle.Template.Piece
import GridPuzzle.Template.Region
import GridPuzzle.Template.Source
import GridPuzzle.Template.SourceBits

/-!
The calls of the library: each template with its arguments.
-/
namespace GridPuzzle.Template

inductive Call
  | neighbors (kind : Adjacency) (includeSelf : Bool)
  | grid (rows cols : Coord)
  | walls (rows cols : Coord)
  | area (id : Int) (cells : List Cell)
  | display (item : String) (arity : Nat)
  | declare (item : String) (arity : Nat)
  | shade (color : Color) (scope : Scope)
  | shadeOneOf (colors : List Color)
  | complement (color inverse : Color)
  | count (target : Target) (color : Color) (scope : Scope) (id : Option Int)
  | sides (allowed : List Side)
  | register (entry : Registration) (cells : List Cell)
  | coveredByPieces (name : String) (color : Color) (scope : Scope)
  | countPieces (target : Target) (name : String) (id : Option Int) (color : Color) (scope : Scope)
  | connected (color : Color) (kind : Adjacency) (size : Option (Coord × Coord))
  | connectedToBorder (rows cols : Coord) (color : Color) (kind : Adjacency)
  | connectedInAreas (color : Color) (kind : Adjacency)
  | separatedByBits (color : Color) (kind : Adjacency)
  | reachedFromSome (color : Color) (kind : Adjacency)
  | reachFrom (source : Cell) (required forbidden : List Cell) (color : Option Color) (kind : Adjacency)
  | lightFrom (source : Cell) (color : Color) (kind : Adjacency)
  | sourceBits (source : Cell) (id : UInt64) (first last : Nat)
  | rectangles (color : Color) (square : Bool)
  | rectangularRegions (square : Bool)
  | noBlock (height width : Coord) (color : Color) (corner : Option Cell)
  | noRectangle (color : Color)
  | noCrossing
  | freePath (color : Color) (directed : Bool)
  | simpleLoop (color : Color) (deadEnds : Bool)
  | crossingLoop (color : Color) (deadEnds : Bool)
  | directedLoop (color : Color) (path : Bool)
  | loopSigns (color : Color)
  | straight (color : Color)
  | turning (color : Color)
  | loopSegments (source : Cell)
  | sidesOfLoop (inside outside : Option Color)

/-- Only a registration makes use of what is remembered. -/
def Call.run (memo : Memo) : Call → Except Error Program
  | .neighbors kind includeSelf => pure (Template.neighbors kind includeSelf)
  | .grid rows cols => Template.grid rows cols
  | .walls rows cols => Template.walls rows cols
  | .area id cells => pure (Template.area id cells)
  | .display item arity => pure (Template.display item arity)
  | .declare item arity => pure (Template.declare item arity)
  | .shade color scope => Template.shade color scope
  | .shadeOneOf colors => Template.shadeOneOf colors
  | .complement color inverse => Template.complement color inverse
  | .count target color scope id => pure (Template.count target color scope id)
  | .sides allowed => pure (Template.sides allowed)
  | .register entry cells => (entry.register cells memo).1
  | .coveredByPieces name color scope => pure (Template.coveredByPieces name color scope)
  | .countPieces target name id color scope => pure (Template.countPieces target name id color scope)
  | .connected color kind size => pure (Template.connected color kind size)
  | .connectedToBorder rows cols color kind => Template.connectedToBorder rows cols color kind
  | .connectedInAreas color kind => pure (Template.connectedInAreas color kind)
  | .separatedByBits color kind => pure (Template.separatedByBits color kind)
  | .reachedFromSome color kind => pure (Template.reachedFromSome color kind)
  | .reachFrom source required forbidden color kind =>
    pure (Template.reachFrom source required forbidden color kind)
  | .lightFrom source color kind => pure (Template.lightFrom source color kind)
  | .sourceBits source id first last => pure (Template.sourceBits source id first last)
  | .rectangles color square => pure (Template.rectangles color square)
  | .rectangularRegions square => pure (Template.rectangularRegions square)
  | .noBlock height width color corner => Template.noBlock height width color corner
  | .noRectangle color => pure (Template.noRectangle color)
  | .noCrossing => pure Template.noCrossing
  | .freePath color directed => pure (Template.freePath color directed)
  | .simpleLoop color deadEnds => pure (Template.simpleLoop color deadEnds)
  | .crossingLoop color deadEnds => pure (Template.crossingLoop color deadEnds)
  | .directedLoop color path => pure (Template.directedLoop color path)
  | .loopSigns color => pure (Template.loopSigns color)
  | .straight color => pure (Template.straight color)
  | .turning color => pure (Template.turning color)
  | .loopSegments source => pure (Template.loopSegments source)
  | .sidesOfLoop inside outside => pure (Template.sidesOfLoop inside outside)

end GridPuzzle.Template
