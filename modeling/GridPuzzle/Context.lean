import GridPuzzle.Polyomino.Catalog
import GridPuzzle.Template.Piece

/-!
What one compilation remembers: the table of the named polyominoes, which is made when it is first asked for, and the
orientations of shapes. Requests are answered one after the other, each from what the earlier ones have left behind.
-/
namespace GridPuzzle

structure Context where
  catalog : Option (List (String × Polyomino))
  memo : Memo

namespace Context

def new : Context := ⟨none, .empty⟩

/-- The number of remembered lists of orientations. -/
def cached (context : Context) : Nat := context.memo.size

def pieces (context : Context) : List (String × Polyomino) × Context :=
  match context.catalog with
  | some known => (known, context)
  | none => (Catalog.pieces, ⟨some Catalog.pieces, context.memo⟩)

inductive Request
  | piece (name : String)
  | piecesOfSize (size : Nat)
  | orientations (shape : Polyomino) (symmetry : Symmetry)
  | register (entry : Template.Registration) (cells : List Cell)

inductive Answer
  | piece (found : Option Polyomino)
  | pieces (found : List (String × Polyomino))
  | orientations (outcome : Except Error (List Polyomino))
  | program (outcome : Except Error Program)

def answer (context : Context) : Request → Answer × Context
  | .piece name =>
    let (pieces, context) := context.pieces
    (.piece (pieces.lookup name), context)
  | .piecesOfSize size =>
    let (pieces, context) := context.pieces
    (.pieces (pieces.filter (·.2.size = size)), context)
  | .orientations shape symmetry =>
    let (outcome, memo) := context.memo.orientations shape symmetry
    (.orientations outcome, ⟨context.catalog, memo⟩)
  | .register entry cells =>
    let (outcome, memo) := entry.register cells context.memo
    (.program outcome, ⟨context.catalog, memo⟩)

def run (context : Context) : List Request → List Answer × Context
  | [] => ([], context)
  | request :: rest =>
    let (answer, next) := context.answer request
    let (answers, last) := next.run rest
    (answer :: answers, last)

end Context

end GridPuzzle
