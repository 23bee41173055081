import GridPuzzle.Relation

/-!
Colors: the property of a cell that a relation holds of it, or that it does not.
-/
namespace GridPuzzle

inductive Color
  | positive (name : String)
  | negated (name : String)
  deriving DecidableEq, Repr

namespace Color

/-- A name starts with a small letter and goes on with letters, digits and underscores, all of ASCII. -/
def isName : List Char → Bool
  | [] => false
  | first :: rest => first.isLower && rest.all fun char => char.isAlphanum || char == '_'

/-- The start that marks the label of a negated color. -/
def isReserved : List Char → Bool
  | 'n' :: 'o' :: 't' :: '_' :: _ => true
  | _ => false

def checkName (name : String) : Except Error Unit :=
  if isName name.toList then
    if isReserved name.toList then .error (.reservedName name) else .ok ()
  else .error (.invalidName name)

def ofName (name : String) : Except Error Color := do
  checkName name
  pure (.positive name)

def ofNegatedName (name : String) : Except Error Color := do
  checkName name
  pure (.negated name)

def name : Color → String
  | .positive name => name
  | .negated name => name

def isNegated : Color → Bool
  | .positive _ => false
  | .negated _ => true

def opposite : Color → Color
  | .positive name => .negated name
  | .negated name => .positive name

def word : Color → String
  | .positive name => name
  | .negated name => "not_" ++ name

def text : Color → String
  | .positive name => name
  | .negated name => "not " ++ name

/-- The name, where the color has to be derived or chosen. -/
def derivable : Color → Except Error String
  | .positive name => .ok name
  | .negated name => .error (.negatedColor name)

def on : Color → Place → Test
  | .positive name, place => .holds (.cell name place)
  | .negated name, place => .fails (.cell name place)

def off (color : Color) (place : Place) : Test := color.opposite.on place

end Color

def Label.Part.ofColor (color : Color) : Part := .word color.word

end GridPuzzle
