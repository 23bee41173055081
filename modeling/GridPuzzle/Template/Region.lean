import GridPuzzle.Template.Rectangle

/-!
Regions that walls enclose: rectangular ones by the roles of their cells, and corners at which not all
four walls meet.
-/
namespace GridPuzzle.Template

def regionRoles : List Statement :=
  let roles := Roles.ofRegion
  let wall (relation : String) : Literal := .holds (.cell relation .here)
  let noWall (relation : String) : Literal := .fails (.cell relation .here)
  let lefts := [roles.corner, roles.left].map fun role =>
    Statement.rule (.cell roles.left .here)
      [onGrid .here, wall Relation.wallLeft, noWall Relation.wallTop, .holds (.cell role above)]
  let tops := [roles.corner, roles.top].map fun role =>
    Statement.rule (.cell roles.top .here)
      [onGrid .here, wall Relation.wallTop, noWall Relation.wallLeft, .holds (.cell role before)]
  let inners := roles.aroundInner.map fun (left, top) =>
    Statement.rule (.cell roles.inner .here)
      [onGrid .here, noWall Relation.wallLeft, noWall Relation.wallTop, .holds (.cell left before),
        .holds (.cell top above)]
  [.rule (.cell roles.corner .here) [onGrid .here, wall Relation.wallLeft, wall Relation.wallTop]] ++
    lefts ++ tops ++ inners

/-- Of two cells joined without the wall `between`, one has the wall at `first` and the other has none
at `second`, or the other way round. -/
def unaligned (next : Place) (between along : String) (first second : Place) : List Statement :=
  let joined : List Literal := [onGrid .here, onGrid next, .fails (.cell between next)]
  [.constraint (joined ++ [.holds (.cell along first), .fails (.cell along second)]),
    .constraint (joined ++ [.fails (.cell along first), .holds (.cell along second)])]

def diagonal : Place := Place.here.step (.of 1 1)

/-- Two cells joined without a wall share their walls on the sides parallel to the join. -/
def aligned : List Statement :=
  unaligned after Relation.wallLeft Relation.wallTop .here after ++
    unaligned after Relation.wallLeft Relation.wallTop below diagonal ++
    unaligned below Relation.wallTop Relation.wallLeft .here below ++
    unaligned below Relation.wallTop Relation.wallLeft after diagonal

def firstWall (target candidate wall : String) (start : Term) (place : Term → Place) : Literal :=
  let here : Term := .var candidate 0
  .extremum [target] .least [⟨[here], [.holds (.cell wall (place here)), .compare .gt here start]⟩]

/-- The region that a corner opens is as high as it is wide. -/
def squareRegions : Statement :=
  let row := Place.here.row
  let col := Place.here.col
  .constraint [.holds (.cell Roles.ofRegion.corner .here),
    firstWall "MR" "R1" Relation.wallTop row (⟨·, col⟩),
    firstWall "MC" "C1" Relation.wallLeft col (⟨row, ·⟩), unequalExtents]

/-- Every region that walls enclose is a rectangle, or a square on request. The outer walls have to be
given. -/
def rectangularRegions (square : Bool) : Program :=
  let squares := if square then [squareRegions] else []
  ⟨regionRoles ++ [.constraint (.test (onGrid .here) :: Roles.ofRegion.none .here)] ++ aligned ++ squares⟩

/-- No four walls meet in one point. -/
def noCrossing : Program :=
  ⟨[.constraint [.holds (.cell Relation.wallLeft after), .holds (.cell Relation.wallLeft diagonal),
    .holds (.cell Relation.wallTop below), .holds (.cell Relation.wallTop diagonal)]]⟩

end GridPuzzle.Template
