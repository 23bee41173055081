import GridPuzzle.Cell

/-!
The four sides of a cell, always taken in the order left, up, right, down, and the steps through them.
-/
namespace GridPuzzle

inductive Side
  | left
  | up
  | right
  | down
  deriving DecidableEq, Repr

namespace Side

def all : List Side := [.left, .up, .right, .down]

theorem mem_all (side : Side) : side ∈ all := by cases side <;> decide

def letter : Side → String
  | .left => "l"
  | .up => "u"
  | .right => "r"
  | .down => "d"

def ofLetter? (letter : String) : Option Side := all.find? (·.letter == letter)

def offset : Side → Cell
  | .left => .of 0 (-1)
  | .up => .of (-1) 0
  | .right => .of 0 1
  | .down => .of 1 0

def opposite : Side → Side
  | .left => .right
  | .up => .down
  | .right => .left
  | .down => .up

def neighbor (side : Side) (cell : Cell) : Except Error Cell := cell.shift side.offset

/-- The first of the given sides of `source` behind which `target` lies. -/
def firstTowards (source target : Cell) : List Side → Except Error (Option Side)
  | [] => pure none
  | side :: rest => do
    let reached ← side.neighbor source
    if reached = target then pure (some side) else firstTowards source target rest

/-- The side of `source` behind which `target` lies, if the two share one. -/
def between (source target : Cell) : Except Error (Option Side) := firstTowards source target all

end Side

namespace Cell

/-- The offsets of the eight cells around a cell, those behind its sides first. -/
def surroundings : List Cell :=
  Side.all.map Side.offset ++ [.of (-1) (-1), .of (-1) 1, .of 1 (-1), .of 1 1]

/-- The steps from each of some cells to the cells around it, as cell and offset. -/
def steps (cells : List Cell) : List (Cell × Cell) :=
  cells.flatMap fun cell => surroundings.map (cell, ·)

end Cell

end GridPuzzle
