import GridPuzzle.Board.Group

/-!
Rectangles on a board: groups of shaded cells that fill the box around them, blocks of shaded cells, and
the corners at which a group bends.
-/
namespace GridPuzzle

structure Rectangle where
  topLeft : Cell
  height : Coord
  width : Coord
  deriving DecidableEq

def Rectangle.isSquare (rectangle : Rectangle) : Bool := rectangle.height = rectangle.width

namespace Board

def lengthOf (first last : Coord) : Except Error Coord := do
  let steps ← last.sub first
  steps.add (.of 1)

def box? (cells : List Cell) : Except Error (Option Rectangle) :=
  match Coord.span? (cells.map Cell.row), Coord.span? (cells.map Cell.col) with
  | some (top, bottom), some (left, right) => do
    let height ← lengthOf top bottom
    let width ← lengthOf left right
    pure (some ⟨⟨top, left⟩, height, width⟩)
  | _, _ => pure none

def filled? (cells : List Cell) : Except Error (Option Rectangle) := do
  match ← box? cells with
  | none => pure none
  | some rectangle =>
    let area ← rectangle.height.mul rectangle.width
    pure (if area.val = cells.length then some rectangle else none)

/-- The rectangles that the groups fill, if every one of them does. -/
def filledAll? : List (List Cell) → Except Error (Option (List Rectangle))
  | [] => pure (some [])
  | group :: rest => do
    match ← filled? group with
    | none => pure none
    | some rectangle => do
      let others ← filledAll? rest
      pure (others.map (rectangle :: ·))

def filledNone : List (List Cell) → Except Error Bool
  | [] => pure true
  | group :: rest => do
    match ← filled? group with
    | none => filledNone rest
    | some _ => pure false

def rectangles (board : Board) : Except Error (Option (List Rectangle)) := do
  let groups ← board.components .side
  filledAll? groups

def allRectangles (board : Board) (square : Bool) : Except Error Bool := do
  match ← board.rectangles with
  | none => pure false
  | some found => pure (!square || found.all Rectangle.isSquare)

def noRectangle (board : Board) : Except Error Bool := do
  let groups ← board.components .side
  filledNone groups

/-- Whether a test holds of `count` numbers from `first` on. It stops at the first for which it fails. -/
def holdsFrom (test : Nat → Except Error Bool) : Nat → Nat → Except Error Bool
  | 0, _ => pure true
  | count + 1, first => do
    if ← test first then holdsFrom test count (first + 1) else pure false

def isBlock (board : Board) (height width : Nat) (corner : Cell) : Except Error Bool :=
  holdsFrom (fun row => holdsFrom (fun col => do
    let row ← Coord.checked .add (corner.row.val + row)
    let col ← Coord.checked .add (corner.col.val + col)
    pure (board.isShaded ⟨row, col⟩)) width 0) height 0

/-- Whether a test holds of some cell. It stops at the first. -/
def holdsOfSome (test : Cell → Except Error Bool) : List Cell → Except Error Bool
  | [] => pure false
  | cell :: rest => do if ← test cell then pure true else holdsOfSome test rest

/-- Whether some block of the given size is full. A block without cells is. -/
def containsBlock (board : Board) (height width : Coord) : Except Error Bool :=
  if height.val ≤ 0 ∨ width.val ≤ 0 then pure true
  else holdsOfSome (board.isBlock height.val.toNat width.val.toNat) board.locations

/-- The shaded cells of the window of two rows and two columns at a corner, if they are three. -/
def bend (board : Board) (corner : Cell) : Except Error (List Cell) := do
  let window ← [Cell.of 0 0, .of 0 1, .of 1 0, .of 1 1].mapM corner.shift
  let shaded := window.filter board.isShaded
  pure (if window.all board.contains ∧ shaded.length = 3 then shaded else [])

/-- The groups that bend somewhere. They are all the groups but the rectangles. -/
def bentGroups (board : Board) : Except Error (List Cell) := do
  let bends ← board.locations.mapM board.bend
  match board.graph .side with
  | .ok graph => pure (joinedTo graph bends.flatten)
  | .error _ => pure []

end Board

end GridPuzzle
