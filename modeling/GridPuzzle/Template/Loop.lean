import GridPuzzle.Color
import GridPuzzle.Template.Neighbors

/-!
Loops and paths, by the sides through which they pass each cell. What leaves a cell through a side has
to come back through the opposite side of the cell behind it.
-/
namespace GridPuzzle.Template

def deadEnd : String := "dead_end"

def passedBy : String := "pass_by_loop"

def pathStart : String := "path_start"

def pathEnd : String := "path_end"

def outsideLoop : String := "outside_loop"

def anySide : Term := .var "D" 0

def degree (relation : String) (comparator : Comparator) (sides : Int) : Literal :=
  .count ⟨[anySide], [.holds ⟨relation, Place.here.args ++ [anySide]⟩]⟩ comparator sides

/-- Sides may be picked for the cells of a color, and for no other cell. -/
def pickSides (color : Color) (relation : String) : List Statement :=
  let picked (side : Term) : Atom := ⟨relation, Place.here.args ++ [side]⟩
  let option : Choosable := ⟨picked anySide, [.holds ⟨Relation.side, [anySide]⟩]⟩
  [.choice [option] none [onGrid .here, color.on .here],
    .constraint [onGrid .here, .holds (picked .anon), color.off .here]]

def freePath (color : Color) (directed : Bool) : Program :=
  let relations := if directed then [Relation.enters, Relation.leaves] else [Relation.passes]
  ⟨relations.flatMap (pickSides color)⟩

/-- What one relation says of a side is answered by another on the cell behind it. -/
def answered (relation answer : String) (side : Side) : Statement :=
  .constraint [onGrid .here, .holds (side.fact relation .here),
    .fails (side.opposite.fact answer (Place.here.step side.offset))]

/-- Cells are passed with one of the given numbers of sides. On request, dead ends are exempt and have
one side. -/
def passes (color : Color) (degrees : List Int) (deadEnds : Bool) : Program :=
  let allowed := degrees.map fun sides =>
    Statement.rule (.cell passedBy .here) [onGrid .here, degree Relation.passes .eq sides]
  let required : List Statement := if deadEnds then
      [.constraint [onGrid .here, color.on .here, .fails (.cell deadEnd .here),
          .fails (.cell passedBy .here)],
        .constraint [onGrid .here, .holds (.cell deadEnd .here), degree Relation.passes .ne 1]]
    else [.constraint [onGrid .here, color.on .here, .fails (.cell passedBy .here)]]
  ⟨allowed ++ required ++ Side.all.map (answered Relation.passes Relation.passes)⟩

def simpleLoop (color : Color) (deadEnds : Bool) : Program := passes color [2] deadEnds

/-- The cells of a color lie on loops, and four sides make a crossing. -/
def crossingLoop (color : Color) (deadEnds : Bool) : Program := passes color [2, 4] deadEnds

/-- The one cell of a color without any side of the relation bears the marker. -/
def markedEnd (color : Color) (marker relation : String) : List Statement :=
  let matched : List Literal := [onGrid .here, color.on .here]
  [.rule (.cell marker .here) (matched ++ [degree relation .eq 0]),
    .constraint [.count ⟨Place.here.args.map .term, [.holds (.cell marker .here)]⟩ .ne 1],
    .constraint (matched ++ [degree relation .gt 1])]

/-- The cells of a color lie on directed loops. On request, there is one path besides. -/
def directedLoop (color : Color) (path : Bool) : Program :=
  let ends : List Statement := if path then
      markedEnd color pathStart Relation.enters ++ markedEnd color pathEnd Relation.leaves ++
        [.constraint [.holds (.cell pathStart .here), .holds (.cell pathEnd .here)]]
    else [Relation.enters, Relation.leaves].map fun relation =>
      .constraint [onGrid .here, color.on .here, degree relation .ne 1]
  let sameSide : Statement :=
    .constraint [onGrid .here, .holds ⟨Relation.enters, Place.here.args ++ [anySide]⟩,
      .holds ⟨Relation.leaves, Place.here.args ++ [anySide]⟩]
  let agreeing := Side.all.flatMap fun side =>
    [answered Relation.enters Relation.leaves side, answered Relation.leaves Relation.enters side]
  ⟨ends ++ [sameSide] ++ agreeing⟩

def passedThrough (color : Color) (first second : Side) : List Literal :=
  [onGrid .here, color.on .here, .holds (first.fact Relation.passes .here),
    .holds (second.fact Relation.passes .here)]

/-- The signs for the six ways through a cell. -/
def signs : List (String × Side × Side) :=
  [("J", .left, .up), ("7", .left, .down), ("L", .up, .right), ("r", .down, .right),
    ("-", .left, .right), ("1", .up, .down)]

def loopSigns (color : Color) : Program :=
  let label := Label.join "loop_sign" [.ofColor color]
  ⟨signs.map fun (sign, first, second) =>
    .rule ⟨label, Place.here.args ++ [.str sign]⟩ (passedThrough color first second)⟩

def straight (color : Color) : Program :=
  let label := Label.join "loop_straight" [.ofColor color]
  ⟨[(Side.left, Side.right), (Side.up, Side.down)].map fun (first, second) =>
    .rule (.cell label .here) (passedThrough color first second)⟩

def turning (color : Color) : Program :=
  let label := Label.join "loop_turning" [.ofColor color]
  ⟨[Side.left, Side.right].flatMap fun across =>
    [Side.up, Side.down].map fun along =>
      .rule (.cell label .here) (passedThrough color across along)⟩

/-- The variable is the end of the straight run through a number: the nearest cell that the loop does
not leave through the side. -/
def runEnd (target candidate : String) (which : Extremum) (start : Term) (place : Term → Place)
    (side : Side) : Literal :=
  let here : Term := .var candidate 0
  let comparator : Comparator := match which with
    | .greatest => .le
    | .least => .ge
  .extremum [target] which
    [⟨[here], [onGrid (place here), .compare comparator here start,
      .fails (side.fact Relation.passes (place here))]⟩]

def loopSegments (source : Cell) : Program :=
  let row := (Place.ofCell source).row
  let col := (Place.ofCell source).col
  let segment (first last direction : String) : Atom :=
    ⟨"loop_segment", [row, col, .var first 0, .var last 0, .str direction]⟩
  ⟨[.rule (segment "C1" "C2" "H")
      [runEnd "C1" "C0" .greatest col (⟨row, ·⟩) .left,
        runEnd "C2" "C0" .least col (⟨row, ·⟩) .right],
    .rule (segment "R1" "R2" "V")
      [runEnd "R1" "R0" .greatest row (⟨·, col⟩) .up,
        runEnd "R2" "R0" .least row (⟨·, col⟩) .down]]⟩

/-- Some cells lie inside the loop and some outside. Each column is followed downwards from above the
grid, and the side changes below a cell that the loop joins to its left neighbor. -/
def sidesOfLoop (inside outside : Option Color) : Program :=
  let above := Place.here.step Side.up.offset
  let joinsLeft := Side.left.fact Relation.passes above
  let within : List Statement := match inside with
    | some color => [.constraint [onGrid .here, color.on .here, .holds (.cell outsideLoop .here)]]
    | none => []
  let without : List Statement := match outside with
    | some color => [.constraint [onGrid .here, color.on .here, .fails (.cell outsideLoop .here)]]
    | none => []
  ⟨[.rule (.cell outsideLoop ⟨.int (-1), Place.here.col⟩) [onGrid ⟨.anon, Place.here.col⟩],
    .rule (.cell outsideLoop .here)
      [onGrid .here, .holds (.cell outsideLoop above), .fails joinsLeft],
    .rule (.cell outsideLoop .here)
      [onGrid .here, .fails (.cell outsideLoop above), .holds joinsLeft]] ++ within ++ without⟩

end GridPuzzle.Template
