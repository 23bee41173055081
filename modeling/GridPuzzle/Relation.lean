import GridPuzzle.Rules.Place

/-!
Names of relations. The fixed ones are given by the puzzle or shared by all rules; the others are labels,
a base word followed by parameter words, so that rules with different parameters stay apart.
-/
namespace GridPuzzle

namespace Relation

def grid : String := "grid"

def area : String := "area"

/-- A wall on the left side of a cell. -/
def wallLeft : String := "edge_left"

/-- A wall on the top side of a cell. -/
def wallTop : String := "edge_top"

def passes : String := "grid_direction"

def enters : String := "grid_in"

def leaves : String := "grid_out"

def side : String := "direction"

end Relation

def onGrid (place : Place) : Test := .holds (.cell Relation.grid place)

def offGrid (place : Place) : Test := .fails (.cell Relation.grid place)

/-- The place is a cell of the area that the first term names. -/
def inArea (area : Term) (place : Place) : Test := .holds ⟨Relation.area, area :: place.args⟩

namespace Label

inductive Part
  | word (text : String)
  | number (value : Int)
  | absent
  deriving DecidableEq, Repr

def Part.ofNat (count : Nat) : Part := .number (signed64 count)

def separator : Char := '_'

/-- A minus sign or blank is no character of a relation's name. -/
def plain (text : String) : String :=
  text.map fun char => if char = '-' ∨ char = ' ' then separator else char

def Part.text? : Part → Option String
  | .word text => some (plain text)
  | .number value => some (plain value.repr)
  | .absent => none

/-- The base and the words of the parts that are present, joined by the separator. -/
def join (base : String) (parts : List Part) : String :=
  (parts.filterMap Part.text?).foldl (fun label word => label.push separator ++ word) base

end Label

end GridPuzzle
