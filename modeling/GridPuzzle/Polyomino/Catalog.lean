import GridPuzzle.Polyomino.Basic

/-!
The named polyominoes of up to five cells. A name is the letter that a piece looks like, with its size.
-/
namespace GridPuzzle

def drawnCells (rows : List String) : List Cell :=
  rows.zipIdx.flatMap fun (row, r) =>
    row.toList.zipIdx.filterMap fun (glyph, c) =>
      if glyph = '#' then do
        let row ← Coord.ofInt? r
        let col ← Coord.ofInt? c
        some ⟨row, col⟩
      else none

namespace Catalog

/-- The pieces by size, and by name among those of one size. -/
def drawings : List (String × List String) :=
  [("O1", ["#"]),
    ("I2", ["#", "#"]),
    ("I3", ["#", "#", "#"]),
    ("L3", ["#.", "##"]),
    ("I4", ["#", "#", "#", "#"]),
    ("L4", ["#.", "#.", "##"]),
    ("O4", ["##", "##"]),
    ("S4", [".##", "##."]),
    ("T4", ["###", ".#."]),
    ("F5", [".##", "##.", ".#."]),
    ("I5", ["#", "#", "#", "#", "#"]),
    ("L5", ["#.", "#.", "#.", "##"]),
    ("N5", [".#", ".#", "##", "#."]),
    ("P5", ["##", "##", "#."]),
    ("T5", ["###", ".#.", ".#."]),
    ("U5", ["#.#", "###"]),
    ("V5", ["#..", "#..", "###"]),
    ("W5", ["#..", "##.", ".##"]),
    ("X5", [".#.", "###", ".#."]),
    ("Y5", [".#", "##", ".#", ".#"]),
    ("Z5", ["##.", ".#.", ".##"])]

def pieces : List (String × Polyomino) :=
  drawings.filterMap fun (name, rows) =>
    match Polyomino.ofCells (drawnCells rows) with
    | .ok shape => some (name, shape)
    | .error _ => none

def piece? (name : String) : Option Polyomino := pieces.lookup name

def ofSize (size : Nat) : List (String × Polyomino) := pieces.filter (·.2.size = size)

end Catalog

end GridPuzzle
