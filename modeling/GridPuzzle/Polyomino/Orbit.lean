import GridPuzzle.Polyomino.Basic

/-!
Orientations: the shapes that turns and reflections make of a shape, each once and in the order in which
they are found.
-/
namespace GridPuzzle

inductive Move
  | rotate
  | reflect
  deriving DecidableEq, Repr

def Move.apply : Move → Polyomino → Except Error Polyomino
  | .rotate => Polyomino.rotate
  | .reflect => Polyomino.reflect

/-- The moves that make no new shape. -/
structure Symmetry where
  rotation : Bool
  reflection : Bool
  deriving DecidableEq, Repr

namespace Symmetry

def full : Symmetry := ⟨true, true⟩

/-- The number of moves that the allowed ones can be composed to. -/
def order (symmetry : Symmetry) : Nat :=
  (if symmetry.rotation then 4 else 1) * (if symmetry.reflection then 2 else 1)

def moves (symmetry : Symmetry) : List Move :=
  (if symmetry.rotation then [.rotate] else []) ++ (if symmetry.reflection then [.reflect] else [])

end Symmetry

namespace Polyomino

/-- Apply the moves to each shape that waits, in turn, and let the new ones wait behind the others.
At most `turns` shapes get their turn. -/
def explore (moves : List Move) : Nat → List Polyomino → List Polyomino →
    Except Error (List Polyomino)
  | 0, _, found => .ok found
  | _, [], found => .ok found
  | turns + 1, shape :: waiting, found => do
    let images ← moves.mapM (·.apply shape)
    let fresh := (images.filter (· ∉ found)).eraseDups
    explore moves turns (waiting ++ fresh) (found ++ fresh)

/-- The orientations of a shape, the shape itself first. There are no more of them than moves, so each
gets its turn. -/
def orientations (shape : Polyomino) (symmetry : Symmetry) : Except Error (List Polyomino) :=
  explore symmetry.moves symmetry.order [shape] [shape]

end Polyomino

end GridPuzzle
