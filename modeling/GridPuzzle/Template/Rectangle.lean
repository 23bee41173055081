import GridPuzzle.Color

/-!
Rectangles by roles. In a filled rectangle the cell at the top left opens it, the cells below and right
of that cell form its left column and its top row, and all others lie inside. A group of cells is a
rectangle exactly when each of its cells finds a role and no role reaches a cell outside the group.
-/
namespace GridPuzzle.Template

structure Roles where
  corner : String
  left : String
  top : String
  inner : String

namespace Roles

def ofColor (color : Color) : Roles :=
  let label (role : String) := Label.join role [.ofColor color]
  ⟨label "upleft", label "left", label "up", label "remain"⟩

/-- The roles of regions. A label of a color starts with its role, so none of these is one. -/
def ofRegion : Roles :=
  let label (role : String) := Label.join "region" [.word role]
  ⟨label "upleft", label "left", label "up", label "remain"⟩

def none (roles : Roles) (place : Place) : List Literal :=
  [.fails (.cell roles.corner place), .fails (.cell roles.left place),
    .fails (.cell roles.top place), .fails (.cell roles.inner place)]

/-- The roles of the cell before and of the cell above that make a cell an inner one. -/
def aroundInner (roles : Roles) : List (String × String) :=
  [(roles.left, roles.top), (roles.left, roles.inner), (roles.inner, roles.top),
    (roles.inner, roles.inner)]

end Roles

def above : Place := Place.here.step (.of (-1) 0)

def before : Place := Place.here.step (.of 0 (-1))

def below : Place := Place.here.step (.of 1 0)

def after : Place := Place.here.step (.of 0 1)

/-- The ways for the cell at a place not to have the color. A place off the grid has no color. -/
def unmatched (color : Color) (place : Place) : List Literal :=
  match color with
  | .positive _ => [color.off place]
  | .negated _ => [offGrid place, color.off place]

def colorRoles (color : Color) : List Statement :=
  let roles := Roles.ofColor color
  let matched : List Literal := [onGrid .here, color.on .here]
  let corners := (unmatched color before).flatMap fun left =>
    (unmatched color above).map fun top =>
      Statement.rule (.cell roles.corner .here) (matched ++ [left, top])
  let lefts := (unmatched color before).flatMap fun left =>
    [roles.corner, roles.left].map fun role =>
      Statement.rule (.cell roles.left .here) (matched ++ [.holds (.cell role above), left])
  let tops := (unmatched color above).flatMap fun top =>
    [roles.corner, roles.top].map fun role =>
      Statement.rule (.cell roles.top .here) (matched ++ [.holds (.cell role before), top])
  let inners := roles.aroundInner.map fun (left, top) =>
    Statement.rule (.cell roles.inner .here)
      [onGrid .here, .holds (.cell left before), .holds (.cell top above)]
  corners ++ lefts ++ tops ++ inners

/-- The variable is the first number after `R` or `C` at which a group of the color has ended. -/
def firstEnd (target candidate : String) (start : Term) (place : Term → Place) (color : Color) :
    Literal :=
  let here : Term := .var candidate 0
  let next : Term := .var candidate 1
  .extremum [target] .least
    [⟨[here], [onGrid (place here), color.off (place here), .compare .gt here start]⟩,
      ⟨[next], [onGrid (place here), offGrid (place next)]⟩]

def unequalExtents : Literal :=
  Test.compare .ne (.sub (Term.var "MR" 0) (Term.var "R" 0)) (.sub (Term.var "MC" 0) (Term.var "C" 0))

/-- The group that a corner opens is as high as it is wide. -/
def squareGroups (color : Color) : List Statement :=
  let roles := Roles.ofColor color
  let row := Place.here.row
  let col := Place.here.col
  [.constraint [onGrid .here, .holds (.cell roles.corner .here),
      firstEnd "MR" "R1" row (⟨·, col⟩) color, firstEnd "MC" "C1" col (⟨row, ·⟩) color,
      unequalExtents],
    .constraint [.holds (.cell roles.corner .here), .holds (.cell roles.left below),
      .fails (.cell roles.top after)],
    .constraint [.holds (.cell roles.corner .here), .holds (.cell roles.top after),
      .fails (.cell roles.left below)]]

/-- Every connected group of a color is a filled rectangle, or a square on request. -/
def rectangles (color : Color) (square : Bool) : Program :=
  let roles := Roles.ofColor color
  let squares := if square then squareGroups color else []
  ⟨colorRoles color ++
    [.constraint ([.test (onGrid .here), .test (color.on .here)] ++ roles.none .here),
      .constraint [onGrid .here, .holds (.cell roles.inner .here), color.off .here]] ++ squares⟩

end GridPuzzle.Template
