import GridPuzzle.Polyomino.Orbit

/-!
Remembered orientations. What has been worked out for a shape and a symmetry is looked up from then on;
work that failed is not remembered.
-/
namespace GridPuzzle

structure Memo where
  entries : List ((Polyomino × Symmetry) × List Polyomino)

namespace Memo

def empty : Memo := ⟨[]⟩

def size (memo : Memo) : Nat := memo.entries.length

/-- The orientations of a shape, and what is remembered after they have been asked for. -/
def orientations (memo : Memo) (shape : Polyomino) (symmetry : Symmetry) :
    Except Error (List Polyomino) × Memo :=
  match memo.entries.lookup (shape, symmetry) with
  | some known => (.ok known, memo)
  | none =>
    match shape.orientations symmetry with
    | .ok found => (.ok found, ⟨((shape, symmetry), found) :: memo.entries⟩)
    | .error error => (.error error, memo)

end Memo

end GridPuzzle
