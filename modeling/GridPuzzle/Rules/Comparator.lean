import GridPuzzle.Error

/-!
Comparisons of integers, and the targets that a count of cells or shapes has to meet.
-/
namespace GridPuzzle

inductive Comparator
  | eq
  | ne
  | lt
  | le
  | gt
  | ge
  deriving DecidableEq, Repr

namespace Comparator

def all : List Comparator := [.eq, .ne, .lt, .le, .gt, .ge]

def name : Comparator → String
  | .eq => "eq"
  | .ne => "ne"
  | .lt => "lt"
  | .le => "le"
  | .gt => "gt"
  | .ge => "ge"

def ofName (name : String) : Except Error Comparator :=
  match all.find? (·.name == name) with
  | some comparator => .ok comparator
  | none => .error (.unsupportedComparator name)

def symbol : Comparator → String
  | .eq => "="
  | .ne => "!="
  | .lt => "<"
  | .le => "<="
  | .gt => ">"
  | .ge => ">="

def negate : Comparator → Comparator
  | .eq => .ne
  | .ne => .eq
  | .lt => .ge
  | .le => .gt
  | .gt => .le
  | .ge => .lt

def holds : Comparator → Int → Int → Bool
  | .eq, a, b => a = b
  | .ne, a, b => a ≠ b
  | .lt, a, b => a < b
  | .le, a, b => a ≤ b
  | .gt, a, b => a > b
  | .ge, a, b => a ≥ b

theorem holds_negate (comparator : Comparator) (a b : Int) :
    comparator.negate.holds a b = !comparator.holds a b := by
  rw [Bool.eq_iff_iff]
  cases comparator <;> simp [negate, holds]

end Comparator

inductive Target
  | exactly (value : Int)
  | compare (comparator : Comparator) (value : Int)
  deriving DecidableEq, Repr

namespace Target

/-- The comparison that a constraint has to forbid, with the number to compare with. -/
def forbidden : Target → Comparator × Int
  | .exactly value => (.ne, value)
  | .compare comparator value => (comparator.negate, value)

def accepts (target : Target) (count : Int) : Bool :=
  !target.forbidden.1.holds count target.forbidden.2

end Target

end GridPuzzle
