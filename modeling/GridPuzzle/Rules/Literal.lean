import GridPuzzle.Rules.Comparator
import GridPuzzle.Rules.Term

/-!
What the body of a rule is made of. A `Test` speaks of one atom or compares two expressions; a `Literal`
is a test, or an aggregate over all values that satisfy some tests.
-/
namespace GridPuzzle

structure Atom where
  relation : String
  args : List Term
  deriving DecidableEq, Repr

def Atom.text (atom : Atom) : String :=
  if atom.args = [] then atom.relation
  else atom.relation ++ "(" ++ ", ".intercalate (atom.args.map Term.text) ++ ")"

inductive Test
  | holds (atom : Atom)
  | fails (atom : Atom)
  | compare (comparator : Comparator) (left right : Expression)
  deriving DecidableEq, Repr

/-- The sign of a comparison between expressions, where a single `=` would be an assignment. -/
def Comparator.sign : Comparator → String
  | .eq => "=="
  | other => other.symbol

def Test.text : Test → String
  | .holds atom => atom.text
  | .fails atom => "not " ++ atom.text
  | .compare comparator left right => left.text ++ " " ++ comparator.sign ++ " " ++ right.text

/-- The tuples that an aggregate ranges over: one for each way to meet the conditions. -/
structure Element where
  tuple : List Expression
  conditions : List Test
  deriving DecidableEq, Repr

inductive Extremum
  | least
  | greatest
  deriving DecidableEq, Repr

inductive Literal
  | test (single : Test)
  /-- The named variables are the extreme one among the tuples of the elements. -/
  | extremum (targets : List String) (which : Extremum) (elements : List Element)
  | count (element : Element) (comparator : Comparator) (bound : Int)
  /-- Text that is passed on as it stands. -/
  | verbatim (words : String)
  deriving DecidableEq, Repr

def tupleText : List String → String
  | [part] => part
  | parts => "(" ++ ", ".intercalate parts ++ ")"

def Extremum.text : Extremum → String
  | .least => "#min"
  | .greatest => "#max"

def conditionText (conditions : List Test) : String := ", ".intercalate (conditions.map Test.text)

namespace Literal

def text : Literal → String
  | .test single => single.text
  | .extremum targets which elements =>
    tupleText targets ++ " = " ++ which.text ++ " \x7b " ++
      "; ".intercalate (elements.map fun element =>
        tupleText (element.tuple.map Expression.text) ++ ": " ++ conditionText element.conditions) ++
      " \x7d"
  | .count element comparator bound =>
    "#count \x7b " ++ ", ".intercalate (element.tuple.map Expression.text) ++ ": " ++
      conditionText element.conditions ++ " \x7d " ++ comparator.symbol ++ " " ++ bound.repr
  | .verbatim words => words

def holds (atom : Atom) : Literal := .test (.holds atom)

def fails (atom : Atom) : Literal := .test (.fails atom)

def listText (literals : List Literal) : String := ", ".intercalate (literals.map text)

end Literal

end GridPuzzle
