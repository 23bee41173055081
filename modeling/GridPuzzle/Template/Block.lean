import GridPuzzle.Color
import GridPuzzle.Template.Grid
import GridPuzzle.Template.Neighbors

/-!
What cells of a color must not form: a full block of a given size, or a rectangle of any size.
-/
namespace GridPuzzle.Template

def blockOffsets (height width : Nat) : List (Nat × Nat) :=
  (List.range height).flatMap fun row => (List.range width).map (row, ·)

/-- No block of the given size is full of the color, neither at the corner if one is given nor, without
one, anywhere. -/
def noBlock (height width : Coord) (color : Color) (corner : Option Cell) : Except Error Program := do
  requireCells height width
  let start := (corner.map Place.ofCell).getD .here
  let body := (blockOffsets height.val.toNat width.val.toNat).flatMap fun (row, col) =>
    let place : Place := ⟨start.row.shift row, start.col.shift col⟩
    let within : List Literal := if color.isNegated then [onGrid place] else []
    within ++ [.test (color.on place)]
  pure ⟨[.constraint body]⟩

def window : List Place :=
  [Place.here, Place.here.step (.of 0 1), Place.here.step (.of 1 0), Place.here.step (.of 1 1)]

/-- Where one place of the window alone lacks the color, the label starts at the three others. -/
def bend (label : String) (color : Color) (lacking : Place) : List Statement :=
  let others := window.filter (· ≠ lacking)
  let body : List Literal :=
    [.test (onGrid .here), .test (onGrid (Place.here.step (.of 1 1))), .test (color.off lacking)] ++
      others.map fun place => Literal.test (color.on place)
  others.map fun place => Statement.rule (.cell label place) body

/-- No connected group of a color is a filled rectangle: the label, which starts at bends and spreads
through cells of the color, reaches them all. -/
def noRectangle (color : Color) : Program :=
  let label := Label.join "no_rect" [.ofColor color]
  ⟨window.flatMap (bend label color) ++
    [.rule (.cell label .here) [.holds (.cell label .other), onGrid .here, color.on .here,
        .holds (Adjacency.side.joins .here .other)],
      .constraint [onGrid .here, color.on .here, .fails (.cell label .here)]]⟩

end GridPuzzle.Template
