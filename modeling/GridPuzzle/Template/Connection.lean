import GridPuzzle.Color
import GridPuzzle.Template.Grid
import GridPuzzle.Template.Neighbors

/-!
Connected colors. A label starts at some cells of a color, spreads to neighbors of the same color, and
has to cover every cell of the color.
-/
namespace GridPuzzle.Template

/-- The label of a template that spreads along `kind` through cells of `color`. -/
def spreadLabel (words : List String) (kind : Adjacency) (color : Option Color) : String :=
  Label.join "reachable" (words.map .word ++
    [.word "adj", .ofAdjacency kind, (color.map Label.Part.ofColor).getD .absent])

def spread (label : String) (color : Color) (kind : Adjacency) : Statement :=
  .rule (.cell label .here)
    [.holds (.cell label .other), onGrid .here, color.on .here, .holds (kind.joins .here .other)]

def covered (label : String) (color : Color) : Statement :=
  .constraint [onGrid .here, color.on .here, .fails (.cell label .here)]

/-- The cells of a color form one group. The label starts at the first of them, or at the one nearest
to the middle of a grid whose size is given. -/
def connected (color : Color) (kind : Adjacency) (size : Option (Coord × Coord)) : Program :=
  let label := spreadLabel ["grid"] kind (some color)
  let candidates : List Test := [onGrid .other, color.on .other]
  let start : Literal := match size with
    | none => .extremum ["R", "C"] .least [⟨Place.other.args.map .term, candidates⟩]
    | some (rows, cols) =>
      let fromMiddle : Expression := .add (distance Place.other.row (.int (rows.val.tdiv 2)))
        (distance Place.other.col (.int (cols.val.tdiv 2)))
      .extremum ["D", "R", "C"] .least [⟨fromMiddle :: Place.other.args.map .term, candidates⟩]
  ⟨[.rule (.cell label .here) [start], spread label color kind, covered label color]⟩

def ring (rows cols : Nat) : List (Nat × Nat) :=
  (List.range rows).flatMap fun row =>
    if row = 0 ∨ row + 1 = rows then (List.range cols).map (row, ·)
    else if cols = 1 then [(row, 0)]
    else [(row, 0), (row, cols - 1)]

/-- Every cell of a color is connected to one on the outer ring of the grid. -/
def connectedToBorder (rows cols : Coord) (color : Color) (kind : Adjacency) :
    Except Error Program := do
  requireCells rows cols
  let label := spreadLabel ["border"] kind (some color)
  let starts := (ring rows.val.toNat cols.val.toNat).map fun (row, col) =>
    let place : Place := ⟨.int row, .int col⟩
    Statement.rule (.cell label place) [color.on place]
  pure ⟨starts ++ [spread label color kind, covered label color]⟩

/-- In every area, the cells of a color form one group. -/
def connectedInAreas (color : Color) (kind : Adjacency) : Program :=
  let label := spreadLabel ["area"] kind (some color)
  let labelled (place : Place) : Atom := ⟨label, Scope.areaVariable :: place.args⟩
  let member := inArea Scope.areaVariable
  ⟨[.rule (labelled .here)
      [member ⟨.anon, .anon⟩,
        .extremum ["R", "C"] .least [⟨Place.other.args.map .term, [member .other, color.on .other]⟩]],
    .rule (labelled .here)
      [.holds (labelled .other), member .here, color.on .here, .holds (kind.joins .here .other)],
    .constraint [member .here, color.on .here, .fails (labelled .here)]]⟩

end GridPuzzle.Template
