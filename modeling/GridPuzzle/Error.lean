/-!
Refusals. Every operation of the library that can fail says why with one `Error`, and `Error.message`
is the only place where a refusal is put into words.
-/
namespace GridPuzzle

/-- The arithmetic on coordinates whose result may leave their range. -/
inductive Operation
  | add
  | subtract
  | multiply
  | negate
  deriving DecidableEq, Repr

def Operation.verb : Operation → String
  | .add => "add"
  | .subtract => "subtract"
  | .multiply => "multiply"
  | .negate => "negate"

inductive Error
  | unsupportedAdjacency (name : String)
  | unsupportedContainer (name : String)
  | unsupportedComparator (name : String)
  /-- A negated color stands where the color itself has to be derived or chosen. -/
  | negatedColor (name : String)
  /-- The name could be read as the label of a negated color. -/
  | reservedName (name : String)
  | invalidName (name : String)
  | emptyShape
  | invalidGrid (rows cols : Int)
  | overflow (operation : Operation)
  deriving DecidableEq, Repr

def Error.message : Error → String
  | .unsupportedAdjacency name => s!"unsupported adjacency kind: {name}"
  | .unsupportedContainer name => s!"unsupported container kind: {name}"
  | .unsupportedComparator name => s!"unsupported comparator: {name}"
  | .negatedColor name => s!"predicate `{name}` is negated but a positive predicate is required here"
  | .reservedName name => s!"predicate name `{name}` starts with the reserved prefix `not_`"
  | .invalidName name => s!"`{name}` is not a valid predicate name"
  | .emptyShape => "shape has no cells"
  | .invalidGrid rows cols => "invalid grid dimensions " ++ rows.repr ++ "x" ++ cols.repr
  | .overflow operation => "attempt to " ++ operation.verb ++ " with overflow"

end GridPuzzle
