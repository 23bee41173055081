import GridPuzzle.Board.Basic

/-!
Drafts of boards. A draft takes cells and walls until one of them is at fault; from then on it stays as
it is and cannot be built.
-/
namespace GridPuzzle

inductive Fault
  | outOfBounds
  | raggedRows
  | unknownGlyph (glyph : Char)
  deriving DecidableEq, Repr

structure Draft where
  board : Board
  faults : List Fault

namespace Draft

def blank (rows cols : Nat) (positive : 0 < rows ∧ 0 < cols) : Draft :=
  ⟨.blank rows cols positive, []⟩

def fail (draft : Draft) (fault : Fault) : Draft := { draft with faults := draft.faults ++ [fault] }

/-- Read what is left of a row, from a column on, up to its first unknown glyph. -/
def readGlyphs (draft : Draft) (row col : Nat) : List Char → Draft
  | [] => draft
  | glyph :: rest =>
    if glyph = '#' then readGlyphs { draft with board := draft.board.shadePlace row col } row (col + 1) rest
    else if glyph = '.' then readGlyphs draft row (col + 1) rest
    else draft.fail (.unknownGlyph glyph)

/-- Read the rows that are left, up to the first fault. The length of a row is looked at before its glyphs. -/
def readRows (draft : Draft) (width row : Nat) : List String → Draft
  | [] => draft
  | line :: rest =>
    if line.length ≠ width then draft.fail .raggedRows
    else
      let next := draft.readGlyphs row 0 line.toList
      if next.faults ≠ [] then next else readRows next width (row + 1) rest

/-- Read a board from its rows, with `#` for a shaded cell and `.` for another one. -/
def ofRows (rows : List String) : Draft :=
  let width := (rows.headD "").length
  if positive : 0 < rows.length ∧ 0 < width then (blank rows.length width positive).readRows width 0 rows
  else (blank 1 1 (by decide)).fail .outOfBounds

def shade (draft : Draft) (cell : Cell) : Draft :=
  if draft.faults ≠ [] then draft
  else match draft.board.index? cell with
    | some (row, col) => { draft with board := draft.board.shadeAt row col }
    | none => draft.fail .outOfBounds

def shadeAll (draft : Draft) (cells : List Cell) : Draft := cells.foldl shade draft

/-- Put a wall between two cells. Nothing happens if they do not share a side. -/
def wall (draft : Draft) (a b : Cell) : Except Error Draft :=
  if draft.faults ≠ [] then pure draft
  else if draft.board.contains a && draft.board.contains b then do
    match ← Side.between a b with
    | some _ => pure { draft with board := draft.board.addWall a b }
    | none => pure draft
  else pure (draft.fail .outOfBounds)

/-- Put walls on some sides of a cell, except where these are the border of the board. -/
def wallAround (draft : Draft) (cell : Cell) (sides : List Side) : Except Error Draft :=
  sides.foldlM (fun draft side => do
    let neighbor ← side.neighbor cell
    if draft.board.contains neighbor then draft.wall cell neighbor else pure draft) draft

def build (draft : Draft) : Except (List Fault) Board :=
  if draft.faults = [] then .ok draft.board else .error draft.faults

end Draft

end GridPuzzle
