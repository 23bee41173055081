/-!
Terms and arithmetic expressions over variables, as they stand in the arguments and conditions of rules.
-/
namespace GridPuzzle

/-- The bits of a count of 64 bits, read as a number with a sign. -/
def signed64 (count : Nat) : Int := (count : Int).bmod 18446744073709551616

inductive Term
  | int (value : Int)
  | str (words : String)
  /-- A variable, or the number some way after it. -/
  | var (name : String) (offset : Int)
  /-- Any value, and another one at each place. -/
  | anon
  | range (first last : Int)
  /-- Text that is passed on as it stands. -/
  | verbatim (words : String)
  deriving DecidableEq, Repr

namespace Term

def text : Term → String
  | .int value => value.repr
  | .str words => "\"" ++ words ++ "\""
  | .var name offset =>
    if offset = 0 then name
    else if 0 < offset then name ++ " + " ++ offset.repr
    else name ++ " - " ++ (-offset).repr
  | .anon => "_"
  | .range first last => first.repr ++ ".." ++ last.repr
  | .verbatim words => words

def ofNat (count : Nat) : Term := .int (signed64 count)

/-- The number `distance` after a number or variable. -/
def shift (distance : Int) : Term → Term
  | .int value => .int (value + distance)
  | .var name offset => .var name (offset + distance)
  | other => other

end Term

inductive Expression
  | term (leaf : Term)
  | abs (inner : Expression)
  | add (left right : Expression)
  | sub (left right : Expression)
  | mul (left right : Expression)
  deriving DecidableEq, Repr

/-- Factors stand in parentheses. Sums are written flat, so their right side is a term or bracketed. -/
def Expression.text : Expression → String
  | .term leaf => leaf.text
  | .abs inner => "|" ++ inner.text ++ "|"
  | .add left right => left.text ++ " + " ++ right.text
  | .sub left right => left.text ++ " - " ++ right.text
  | .mul left right => "(" ++ left.text ++ ") * (" ++ right.text ++ ")"

end GridPuzzle
