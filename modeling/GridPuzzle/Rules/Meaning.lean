import GridPuzzle.Rules.Program

/-!
What programs mean, apart from their text. A world says which ground facts hold. Rules derive facts from
given ones, where negated tests and aggregates are read off a world that is assumed; a world that is
exactly what it derives when assumed is a model. Constraints are read off a model. Choices derive
nothing, as what they pick is among the given facts.
-/
namespace GridPuzzle

/-- Ground values in their order: numbers come before texts, and both between two extremes. -/
inductive Value
  | inf
  | num (value : Int)
  | str (words : String)
  | sup
  deriving DecidableEq

structure Fact where
  relation : String
  values : List Value
  deriving DecidableEq

abbrev World := Fact → Prop

abbrev Binding := String → Value

namespace Value

def Below : Value → Value → Prop
  | .inf, other => other ≠ .inf
  | .num a, .num b => a < b
  | .num _, .str _ => True
  | .str a, .str b => a < b
  | value, .sup => value ≠ .sup
  | _, _ => False

/-- One tuple comes before another or is equal to it, where the first difference decides. -/
def Precede : List Value → List Value → Prop
  | [], _ => True
  | _ :: _, [] => False
  | a :: as, b :: bs => a.Below b ∨ (a = b ∧ Precede as bs)

end Value

/-- The values that a term stands for under a binding. Verbatim text stands for none. -/
def Term.Denotes (binding : Binding) : Term → Value → Prop
  | .int number, value => value = .num number
  | .str words, value => value = .str words
  | .var name 0, value => value = binding name
  | .var name offset, value => ∃ number, binding name = .num number ∧ value = .num (number + offset)
  | .anon, _ => True
  | .range first last, value => ∃ number, first ≤ number ∧ number ≤ last ∧ value = .num number
  | .verbatim _, _ => False

def Expression.Denotes (binding : Binding) : Expression → Value → Prop
  | .term leaf, value => leaf.Denotes binding value
  | .abs inner, value => ∃ number : Int, inner.Denotes binding (.num number) ∧ value = .num number.natAbs
  | .add left right, value => ∃ a b : Int,
      left.Denotes binding (.num a) ∧ right.Denotes binding (.num b) ∧ value = .num (a + b)
  | .sub left right, value => ∃ a b : Int,
      left.Denotes binding (.num a) ∧ right.Denotes binding (.num b) ∧ value = .num (a - b)
  | .mul left right, value => ∃ a b : Int,
      left.Denotes binding (.num a) ∧ right.Denotes binding (.num b) ∧ value = .num (a * b)

def DenoteAll {α : Type} (denotes : α → Value → Prop) : List α → List Value → Prop
  | [], [] => True
  | part :: parts, value :: values => denotes part value ∧ DenoteAll denotes parts values
  | _, _ => False

def Atom.Denotes (binding : Binding) (atom : Atom) (fact : Fact) : Prop :=
  fact.relation = atom.relation ∧ DenoteAll (Term.Denotes binding) atom.args fact.values

def Comparator.Relates : Comparator → Value → Value → Prop
  | .eq, a, b => a = b
  | .ne, a, b => a ≠ b
  | .lt, a, b => a.Below b
  | .le, a, b => a.Below b ∨ a = b
  | .gt, a, b => b.Below a
  | .ge, a, b => b.Below a ∨ a = b

def Test.Holds (world : World) (binding : Binding) : Test → Prop
  | .holds atom => ∃ fact, atom.Denotes binding fact ∧ world fact
  | .fails atom => ∀ fact, atom.Denotes binding fact → ¬ world fact
  | .compare comparator left right =>
      ∃ a b, left.Denotes binding a ∧ right.Denotes binding b ∧ comparator.Relates a b

-- an aggregate binds the variables of its element that do not also stand outside of aggregates
def Term.variables : Term → List String
  | .var name _ => [name]
  | _ => []

def Expression.variables : Expression → List String
  | .term leaf => leaf.variables
  | .abs inner => inner.variables
  | .add left right => left.variables ++ right.variables
  | .sub left right => left.variables ++ right.variables
  | .mul left right => left.variables ++ right.variables

def Atom.variables (atom : Atom) : List String := atom.args.flatMap Term.variables

def Test.variables : Test → List String
  | .holds atom => atom.variables
  | .fails atom => atom.variables
  | .compare _ left right => left.variables ++ right.variables

/-- The variables of a literal that its rule shares. -/
def Literal.outer : Literal → List String
  | .test single => single.variables
  | .extremum targets _ _ => targets
  | .count _ _ _ => []
  | .verbatim _ => []

/-- The tuple is one of those that the element ranges over, with the outer variables as bound. -/
def Element.Yields (world : World) (outer : List String) (binding : Binding) (element : Element)
    (tuple : List Value) : Prop :=
  ∃ inner : Binding, (∀ name ∈ outer, inner name = binding name) ∧
    (∀ condition ∈ element.conditions, condition.Holds world inner) ∧
    DenoteAll (Expression.Denotes inner) element.tuple tuple

/-- The extreme one among the tuples, or beyond all values if there is no tuple. -/
def Extremum.Attains (which : Extremum) (among : List Value → Prop) (tuple : List Value) : Prop :=
  match which with
  | .least => (among tuple ∧ ∀ other, among other → Value.Precede tuple other) ∨
      ((∀ other, ¬ among other) ∧ tuple = [.sup])
  | .greatest => (among tuple ∧ ∀ other, among other → Value.Precede other tuple) ∨
      ((∀ other, ¬ among other) ∧ tuple = [.inf])

def Literal.Holds (world : World) (outer : List String) (binding : Binding) : Literal → Prop
  | .test single => single.Holds world binding
  | .extremum targets which elements =>
      which.Attains (fun tuple => ∃ element ∈ elements, element.Yields world outer binding tuple)
        (targets.map binding)
  | .count element comparator bound =>
      ∃ tuples : List (List Value), tuples.Nodup ∧
        (∀ tuple, tuple ∈ tuples ↔ element.Yields world outer binding tuple) ∧
        comparator.holds tuples.length bound
  | .verbatim _ => False

/-- The facts that a program derives from given ones when a world is assumed. Each positive test of a
rule is met by a derived fact; all other literals are read off the assumed world. -/
inductive Derived (program : Program) (given assumed : World) : World
  | given (fact : Fact) (holds : given fact) : Derived program given assumed fact
  | stated (atom : Atom) (statement : .fact atom ∈ program.statements) (binding : Binding) (fact : Fact)
      (denoted : atom.Denotes binding fact) : Derived program given assumed fact
  | rule (head : Atom) (body : List Literal) (statement : .rule head body ∈ program.statements)
      (binding : Binding) (premise : Atom → Fact)
      (matched : ∀ atom, .holds atom ∈ body → atom.Denotes binding (premise atom))
      (derived : ∀ atom, .holds atom ∈ body → Derived program given assumed (premise atom))
      (others : ∀ literal ∈ body, (∀ atom, literal ≠ .holds atom) →
        literal.Holds assumed (head.variables ++ body.flatMap Literal.outer) binding)
      (fact : Fact) (denoted : head.Denotes binding fact) : Derived program given assumed fact

namespace Program

/-- The world holds just what the program derives from the given facts when that world is assumed. -/
def Model (program : Program) (given world : World) : Prop :=
  ∀ fact, world fact ↔ Derived program given world fact

/-- Some constraint has a binding under which its body holds. -/
def Violated (program : Program) (world : World) : Prop :=
  ∃ body, .constraint body ∈ program.statements ∧
    ∃ binding, ∀ literal ∈ body, literal.Holds world (body.flatMap Literal.outer) binding

end Program

end GridPuzzle
