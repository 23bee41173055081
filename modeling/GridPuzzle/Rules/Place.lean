import GridPuzzle.Cell
import GridPuzzle.Rules.Program

/-!
Places: the pair of terms by which a rule speaks of a cell, be it a fixed cell or the cell at the
variables `R` and `C`.
-/
namespace GridPuzzle

structure Place where
  row : Term
  col : Term
  deriving DecidableEq, Repr

namespace Place

/-- The cell that a rule is about. -/
def here : Place := ⟨.var "R" 0, .var "C" 0⟩

def other : Place := ⟨.var "R1" 0, .var "C1" 0⟩

def ofCell (cell : Cell) : Place := ⟨.int cell.row.val, .int cell.col.val⟩

def step (place : Place) (offset : Cell) : Place :=
  ⟨place.row.shift offset.row.val, place.col.shift offset.col.val⟩

def args (place : Place) : List Term := [place.row, place.col]

end Place

def Atom.cell (relation : String) (place : Place) : Atom := ⟨relation, place.args⟩

instance : Coe Test Literal := ⟨.test⟩

instance : Coe Term Expression := ⟨.term⟩

end GridPuzzle
