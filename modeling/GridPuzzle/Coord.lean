import GridPuzzle.Error

/-!
Coordinates: signed numbers of 32 bits. Arithmetic is exact or refused, so a result in hand is always
the number that the integers give.
-/
namespace GridPuzzle

structure Coord where
  val : Int
  inRange : -2147483648 ≤ val ∧ val ≤ 2147483647
  deriving DecidableEq

namespace Coord

theorem ext {a b : Coord} (same : a.val = b.val) : a = b := by
  cases a; cases b; simp_all

/-- A small number, which always fits. -/
def of (value : Int8) : Coord :=
  ⟨value.toInt, by have low := value.le_toInt; have high := value.toInt_lt; omega⟩

def ofInt? (value : Int) : Option Coord :=
  if inRange : -2147483648 ≤ value ∧ value ≤ 2147483647 then some ⟨value, inRange⟩ else none

/-- The outcome of an operation whose exact result is `value`. -/
def checked (operation : Operation) (value : Int) : Except Error Coord :=
  if inRange : -2147483648 ≤ value ∧ value ≤ 2147483647 then .ok ⟨value, inRange⟩
  else .error (.overflow operation)

def add (a b : Coord) : Except Error Coord := checked .add (a.val + b.val)

def sub (a b : Coord) : Except Error Coord := checked .subtract (a.val - b.val)

def mul (a b : Coord) : Except Error Coord := checked .multiply (a.val * b.val)

def neg (a : Coord) : Except Error Coord := checked .negate (-a.val)

/-- The absolute value. Only the least coordinate has none, as its negation does not fit. -/
def abs (a : Coord) : Except Error Coord := checked .negate a.val.natAbs

def min (a b : Coord) : Coord := if b.val < a.val then b else a

def max (a b : Coord) : Coord := if a.val < b.val then b else a

def span? : List Coord → Option (Coord × Coord)
  | [] => none
  | first :: rest => some (rest.foldl min first, rest.foldl max first)

theorem checked_eq_ok_iff {operation : Operation} {value : Int} {result : Coord} :
    checked operation value = .ok result ↔ result.val = value := by
  unfold checked
  split
  · constructor
    · intro same; cases same; rfl
    · intro same; exact congrArg Except.ok (ext same.symm)
  · rename_i outside
    constructor
    · intro same; cases same
    · intro same; exact absurd (same ▸ result.inRange) outside

end Coord

end GridPuzzle
