import GridPuzzle.Template.Connection

/-!
Reachability from sources. The label carries its source, so that many sources share one relation.
-/
namespace GridPuzzle.Template

/-- The label holds of a source and a cell that it reaches. -/
def sourceLabel (color : Option Color) (kind : Adjacency) : String :=
  spreadLabel ["grid", "src"] kind color

def reaches (label : String) (source target : Place) : Atom := ⟨label, source.args ++ target.args⟩

/-- Label what a source reaches along `kind` through cells of the color, or through any cell. The
required cells have to be reached and the forbidden ones must not be. Where walls stop the label, no
wall may stand between two cells that it reaches. -/
def reachFrom (source : Cell) (required forbidden : List Cell) (color : Option Color)
    (kind : Adjacency) : Program :=
  let start := Place.ofCell source
  let reached := reaches (sourceLabel color kind) start
  let included := required.map fun cell => Statement.constraint [.fails (reached (.ofCell cell))]
  let excluded := forbidden.map fun cell => Statement.constraint [.holds (reached (.ofCell cell))]
  let matched : List Literal := match color with
    | some color => [color.on .here]
    | none => []
  let step := Statement.rule (reached .here)
    ([.holds (reached .other), .test (onGrid .here)] ++ matched ++ [.holds (kind.joins .here .other)])
  let noWall (side : Side) (wall : String) : Statement :=
    let next := Place.here.step side.offset
    .constraint [.holds (reached .here), .holds (reached next), .holds (.cell wall next)]
  let sealed := if kind = .walled then
      [noWall .right Relation.wallLeft, noWall .down Relation.wallTop]
    else []
  ⟨[.fact (reached start)] ++ included ++ excluded ++ [step] ++ sealed⟩

/-- Every cell of a color is reached from some source. -/
def reachedFromSome (color : Color) (kind : Adjacency) : Program :=
  ⟨[.constraint [onGrid .here, color.on .here,
    .fails (reaches (sourceLabel (some color) kind) ⟨.anon, .anon⟩ .here)]]⟩

/-- Label what a source lights: it spreads along the row and the column of the source only. -/
def lightFrom (source : Cell) (color : Color) (kind : Adjacency) : Program :=
  let start := Place.ofCell source
  let lit := reaches (spreadLabel ["bulb", "src"] kind (some color)) start
  let inLine : Test :=
    .compare .eq (.mul (.sub Place.here.row start.row) (.sub Place.here.col start.col)) (Term.int 0)
  ⟨[.fact (lit start),
    .rule (lit .here) [.holds (lit .other), onGrid .here, color.on .here,
      .holds (kind.joins .here .other), inLine]]⟩

end GridPuzzle.Template
