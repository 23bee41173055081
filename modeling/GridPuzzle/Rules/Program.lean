import GridPuzzle.Rules.Literal

/-!
Programs: lists of statements, each of which is written on a line of its own. Programs are put together
by `++`, and their text is the text of the parts in order.
-/
namespace GridPuzzle

structure Choosable where
  atom : Atom
  conditions : List Literal
  deriving DecidableEq, Repr

def Choosable.text (option : Choosable) : String :=
  if option.conditions = [] then option.atom.text
  else option.atom.text ++ ": " ++ Literal.listText option.conditions

inductive Statement
  | fact (atom : Atom)
  | rule (head : Atom) (body : List Literal)
  /-- The body must not hold under any binding. -/
  | constraint (body : List Literal)
  /-- Any of the options may be picked, as many as the bound allows, for each binding of the body. -/
  | choice (options : List Choosable) (bound : Option (Comparator × Int)) (body : List Literal)
  | directive (words : String)
  deriving DecidableEq, Repr

namespace Statement

def text : Statement → String
  | .fact atom => atom.text ++ "."
  | .rule head body => head.text ++ " :- " ++ Literal.listText body ++ "."
  | .constraint body => ":- " ++ Literal.listText body ++ "."
  | .choice options bound body =>
    let limit := match bound with
      | some (comparator, value) => " " ++ comparator.symbol ++ " " ++ value.repr
      | none => ""
    let condition := if body = [] then "" else " :- " ++ Literal.listText body
    "\x7b " ++ "; ".intercalate (options.map Choosable.text) ++ " \x7d" ++ limit ++ condition ++ "."
  | .directive words => words ++ "."

def form : Statement → String
  | .fact .. => "fact"
  | .rule .. => "rule"
  | .constraint .. => "constraint"
  | .choice .. => "choice"
  | .directive .. => "directive"

end Statement

structure Program where
  statements : List Statement
  deriving DecidableEq, Repr

namespace Program

def empty : Program := ⟨[]⟩

instance : Append Program := ⟨fun first second => ⟨first.statements ++ second.statements⟩⟩

def push (program : Program) (statement : Statement) : Program :=
  ⟨program.statements ++ [statement]⟩

def size (program : Program) : Nat := program.statements.length

def text (program : Program) : String :=
  String.join (program.statements.map fun statement => statement.text ++ "\n")

def containsLine (program : Program) (line : String) : Bool :=
  program.statements.any (·.text == line)

/-- The statements at the given places, in the order of the places; a place past the end gives none. -/
def select (program : Program) (places : List Nat) : Program :=
  ⟨places.filterMap (program.statements[·]?)⟩

theorem statements_append (first second : Program) :
    (first ++ second).statements = first.statements ++ second.statements := rfl

end Program

end GridPuzzle
