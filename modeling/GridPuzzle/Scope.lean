import GridPuzzle.Relation

/-!
What a rule ranges over: the whole grid at once, or each area on its own.
-/
namespace GridPuzzle

inductive Scope
  | grid
  | area
  deriving DecidableEq, Repr

namespace Scope

def name : Scope → String
  | .grid => Relation.grid
  | .area => Relation.area

def ofName (name : String) : Except Error Scope :=
  match [Scope.grid, Scope.area].find? (·.name == name) with
  | some scope => .ok scope
  | none => .error (.unsupportedContainer name)

def areaVariable : Term := .var "A" 0

/-- The place is a cell of the grid, or of the area that the rule is about. -/
def covers : Scope → Place → Test
  | .grid, place => onGrid place
  | .area, place => inArea areaVariable place

/-- An atom that carries the area before its other arguments, if there is one. -/
def keyed (scope : Scope) (relation : String) (args : List Term) : Atom :=
  match scope with
  | .grid => ⟨relation, args⟩
  | .area => ⟨relation, areaVariable :: args⟩

end Scope

def Label.Part.ofScope (scope : Scope) : Part := .word scope.name

end GridPuzzle
