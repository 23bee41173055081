import GridPuzzle.Color
import GridPuzzle.Scope

/-!
Choosing the colors of cells, and counting them.
-/
namespace GridPuzzle.Template

def shade (color : Color) (scope : Scope) : Except Error Program := do
  let name ← color.derivable
  let cells : Test := match scope with
    | .grid => onGrid .here
    | .area => inArea .anon .here
  pure ⟨[.choice [⟨.cell name .here, []⟩] none [cells]]⟩

def shadeOneOf (colors : List Color) : Except Error Program := do
  let names ← colors.mapM Color.derivable
  pure ⟨[.choice (names.map fun name => ⟨.cell name .here, []⟩) (some (.eq, 1)) [onGrid .here]]⟩

/-- `inverse` is the color of the cells that do not have `color`. -/
def complement (color inverse : Color) : Except Error Program := do
  let name ← inverse.derivable
  pure ⟨[.rule (.cell name .here) [onGrid .here, color.off .here]]⟩

def unmet (target : Target) (element : Element) : Literal :=
  .count element target.forbidden.1 target.forbidden.2

/-- The number of cells of a color meets the target: on the grid, in one area, or in every area. -/
def count (target : Target) (color : Color) (scope : Scope) (id : Option Int) : Program :=
  let misses (cells : Test) : Literal :=
    unmet target ⟨Place.here.args.map .term, [cells, color.on .here]⟩
  let body : List Literal := match scope, id with
    | .grid, _ => [misses (onGrid .here)]
    | .area, some id => [misses (inArea (.int id) .here)]
    | .area, none =>
      [inArea Scope.areaVariable ⟨.anon, .anon⟩, misses (inArea Scope.areaVariable .here)]
  ⟨[.constraint body]⟩

end GridPuzzle.Template
