import Mathlib.Tactic.Abel
import GridPuzzle.Polyomino.Orbit
import GridPuzzle.Proofs.Polyomino.Normal

/-!
Turning shapes. A move of a shape is a linear move of the plane up to a shift. The moves compose to
eight orientations, so a shape and an orientation determine the turned shape, and no move leaves the
shapes whose columns lie close enough together.
-/
namespace GridPuzzle

namespace Move

def act : Move → ℤ × ℤ → ℤ × ℤ
  | .rotate, point => (-point.2, point.1)
  | .reflect, point => (-point.1, point.2)

theorem act_add (move : Move) (point offset : ℤ × ℤ) :
    move.act (point + offset) = move.act point + move.act offset := by
  cases move <;> simp [act, add_comm]

end Move

/-- A way to lie: rows and columns are swapped or not, and then each is run through forwards or
backwards. -/
structure Orientation where
  swapped : Bool
  rowsBack : Bool
  colsBack : Bool
  deriving DecidableEq

namespace Orientation

def sign (back : Bool) (number : ℤ) : ℤ := if back then -number else number

def act (orientation : Orientation) (point : ℤ × ℤ) : ℤ × ℤ :=
  let (row, col) := if orientation.swapped then (point.2, point.1) else point
  (sign orientation.rowsBack row, sign orientation.colsBack col)

def upright : Orientation := ⟨false, false, false⟩

def next : Move → Orientation → Orientation
  | .rotate, ⟨swapped, rowsBack, colsBack⟩ => ⟨!swapped, !colsBack, rowsBack⟩
  | .reflect, ⟨swapped, rowsBack, colsBack⟩ => ⟨swapped, !rowsBack, colsBack⟩

theorem act_upright (point : ℤ × ℤ) : upright.act point = point := rfl

theorem act_next (move : Move) (orientation : Orientation) (point : ℤ × ℤ) :
    (next move orientation).act point = move.act (orientation.act point) := by
  obtain ⟨swapped, rowsBack, colsBack⟩ := orientation
  cases move <;> cases swapped <;> cases rowsBack <;> cases colsBack <;>
    simp [next, act, sign, Move.act]

end Orientation

namespace Symmetry

def turns : Symmetry → List Orientation
  | ⟨false, false⟩ => [.upright]
  | ⟨false, true⟩ => [.upright, ⟨false, true, false⟩]
  | ⟨true, false⟩ => [.upright, ⟨true, true, false⟩, ⟨false, true, true⟩, ⟨true, false, true⟩]
  | ⟨true, true⟩ => [.upright, ⟨true, true, false⟩, ⟨false, true, true⟩, ⟨true, false, true⟩,
      ⟨false, true, false⟩, ⟨true, true, true⟩, ⟨false, false, true⟩, ⟨true, false, false⟩]

theorem length_turns (symmetry : Symmetry) : symmetry.turns.length = symmetry.order := by
  rcases symmetry with ⟨_ | _, _ | _⟩ <;> rfl

theorem upright_mem_turns (symmetry : Symmetry) : .upright ∈ symmetry.turns := by
  rcases symmetry with ⟨_ | _, _ | _⟩ <;> decide

theorem next_mem_turns (symmetry : Symmetry) : ∀ move ∈ symmetry.moves,
    ∀ orientation ∈ symmetry.turns, Orientation.next move orientation ∈ symmetry.turns := by
  rcases symmetry with ⟨_ | _, _ | _⟩ <;> decide

end Symmetry

namespace Polyomino

/-- The first shape, turned into an orientation and shifted, is the second. -/
def Turned (orientation : Orientation) (shape image : Polyomino) : Prop :=
  ∃ offset, ∀ point, image.Has point ↔ ∃ source, shape.Has source ∧ point = orientation.act source + offset

/-- The columns of any two cells differ by a coordinate. -/
def Narrow (shape : Polyomino) : Prop :=
  ∀ a ∈ shape.cells, ∀ b ∈ shape.cells, a.col.val - b.col.val ≤ 2147483647

theorem Turned.refl (shape : Polyomino) : Turned .upright shape shape := by
  refine ⟨0, fun point => ?_⟩
  simp only [Orientation.act_upright, add_zero, exists_eq_right']

theorem Turned.unique {orientation : Orientation} {shape first second : Polyomino}
    (turned : Turned orientation shape first) (turned' : Turned orientation shape second)
    (normal : first.Normal) (normal' : second.Normal) : first = second := by
  obtain ⟨offset, images⟩ := turned
  obtain ⟨offset', images'⟩ := turned'
  have shifted : ∀ point, second.Has point ↔ first.Has (point + (offset - offset')) := by
    intro point
    rw [images, images']
    refine exists_congr fun source => and_congr_right fun _ => ?_
    rw [← sub_eq_iff_eq_add, ← sub_eq_iff_eq_add,
      show point + (offset - offset') - offset = point - offset' by abel]
  exact (normal.eq_of_shift normal' shifted).symm

variable {shape image : Polyomino}

theorem Normal.col_bounds (normal : shape.Normal) (narrow : shape.Narrow) {cell : Cell}
    (member : cell ∈ shape.cells) :
    -2147483647 ≤ cell.col.val ∧ cell.col.val ≤ 2147483647 := by
  have origin := List.mem_of_head? normal.first
  have left := narrow cell member _ origin
  have right := narrow _ origin cell member
  have zero : (Cell.of 0 0).col.val = 0 := rfl
  omega

theorem Normal.row_bounds (normal : shape.Normal) {cell : Cell} (member : cell ∈ shape.cells) :
    0 ≤ cell.row.val ∧ cell.row.val ≤ 2147483647 := by
  have least := normal.least member
  have range := cell.row.inRange
  omega

private theorem mapCells_of_moved (nonempty : shape.cells ≠ []) {move : Cell → Except Error Cell}
    {target : Cell → Cell} (moved : ∀ cell ∈ shape.cells, move cell = .ok (target cell)) :
    shape.mapCells move = ofCells (shape.cells.map target) :=
  (mapCells_eq nonempty move).trans (Outcome.bind_of_ok (Outcome.mapM_ok moved) ofCells)

private theorem apply_eq (nonempty : shape.cells ≠ []) {move : Move} {target : Cell → Cell}
    (moved : ∀ cell ∈ shape.cells, (target cell).point = move.act cell.point) :
    move.apply shape = ofCells (shape.cells.map target) := by
  cases move with
  | rotate =>
    apply mapCells_of_moved nonempty
    intro cell member
    have same := Prod.ext_iff.mp (moved cell member)
    have negated : cell.col.neg = .ok (target cell).row := Coord.checked_eq_ok_iff.mpr same.1
    rw [Outcome.bind_of_ok negated]
    exact congrArg Except.ok (Cell.ext rfl same.2.symm)
  | reflect =>
    apply mapCells_of_moved nonempty
    intro cell member
    have same := Prod.ext_iff.mp (moved cell member)
    have negated : cell.row.neg = .ok (target cell).row := Coord.checked_eq_ok_iff.mpr same.1
    rw [Outcome.bind_of_ok negated]
    exact congrArg Except.ok (Cell.ext rfl same.2.symm)

private theorem exists_moved (normal : shape.Normal) (narrow : shape.Narrow) (move : Move) :
    ∃ target : Cell → Cell, ∀ cell ∈ shape.cells, (target cell).point = move.act cell.point := by
  have fits : ∀ cell ∈ shape.cells, ∃ target : Cell, target.point = move.act cell.point := by
    intro cell member
    have cols := normal.col_bounds narrow member
    have rows := normal.row_bounds member
    cases move with
    | rotate => exact ⟨⟨⟨-cell.col.val, by omega⟩, cell.row⟩, rfl⟩
    | reflect => exact ⟨⟨⟨-cell.row.val, by omega⟩, cell.col⟩, rfl⟩
  choose! target moved using fits
  exact ⟨target, moved⟩

section Moved

variable {move : Move} {target : Cell → Cell}
  (moved : ∀ cell ∈ shape.cells, (target cell).point = move.act cell.point)
include moved

-- what bounds the rows of a turned shape bounds the columns of the shape, and the other way round
private theorem moved_bounds (normal : shape.Normal) (narrow : shape.Narrow) :
    ∀ a ∈ shape.cells, ∀ b ∈ shape.cells,
      ((target a).row.val ≠ -2147483648 ∧ (target a).col.val ≠ -2147483648) ∧
        (target a).row.val - (target b).row.val ≤ 2147483647 ∧
          (target a).col.val - (target b).col.val ≤ 2147483647 := by
  intro a inA b inB
  have colsA := normal.col_bounds narrow inA
  have rowsA := normal.row_bounds inA
  have rowsB := normal.row_bounds inB
  have close := narrow a inA b inB
  have close' := narrow b inB a inA
  have movedA := Prod.ext_iff.mp (moved a inA)
  have movedB := Prod.ext_iff.mp (moved b inB)
  cases move <;> simp only [Cell.point, Move.act] at movedA movedB <;> omega

private theorem exists_image (normal : shape.Normal) (narrow : shape.Narrow) :
    ∃ image, ofCells (shape.cells.map target) = .ok image := by
  have bounds := moved_bounds moved normal narrow
  apply exists_ofCells
  · simpa using normal.cells_ne_nil
  · simp only [List.mem_map, forall_exists_index, and_imp, forall_apply_eq_imp_iff₂]
    exact fun a inA => (bounds a inA a inA).1
  · simp only [List.mem_map, forall_exists_index, and_imp, forall_apply_eq_imp_iff₂]
    exact fun a inA b inB => (bounds a inA b inB).2.1
  · simp only [List.mem_map, forall_exists_index, and_imp, forall_apply_eq_imp_iff₂]
    exact fun a inA b inB => (bounds a inA b inB).2.2

private theorem has_image (built : ofCells (shape.cells.map target) = .ok image) : ∃ offset, ∀ point,
    image.Has point ↔ ∃ source, shape.Has source ∧ point = move.act source + offset := by
  obtain ⟨offset, images⟩ := has_ofCells built
  refine ⟨offset, fun point => ?_⟩
  rw [images]
  constructor
  · intro found
    obtain ⟨_, member, rfl⟩ := found
    obtain ⟨cell, inside, rfl⟩ := List.mem_map.mp member
    exact ⟨cell.point, ⟨cell, inside, rfl⟩, by rw [moved cell inside]⟩
  · intro found
    obtain ⟨_, ⟨cell, inside, rfl⟩, rfl⟩ := found
    exact ⟨target cell, List.mem_map_of_mem inside, by rw [moved cell inside]⟩

private theorem narrow_image (normal : shape.Normal) (narrow : shape.Narrow)
    (built : ofCells (shape.cells.map target) = .ok image) : image.Narrow := by
  obtain ⟨offset, images⟩ := has_ofCells built
  have source (cell : Cell) (member : cell ∈ image.cells) : ∃ origin ∈ shape.cells,
      cell.point = (target origin).point + offset := by
    obtain ⟨_, listed, same⟩ := (images cell.point).mp ⟨cell, member, rfl⟩
    obtain ⟨origin, inside, rfl⟩ := List.mem_map.mp listed
    exact ⟨origin, inside, same⟩
  intro a inA b inB
  obtain ⟨originA, insideA, sameA⟩ := source a inA
  obtain ⟨originB, insideB, sameB⟩ := source b inB
  have close := (moved_bounds moved normal narrow originA insideA originB insideB).2.2
  have colA := congrArg Prod.snd sameA
  have colB := congrArg Prod.snd sameB
  simp only [Cell.point, Prod.snd_add] at colA colB
  omega

end Moved

/-- No move leaves the narrow normal shapes, or fails on them. -/
theorem Normal.apply_ok (normal : shape.Normal) (narrow : shape.Narrow) (move : Move) :
    ∃ image, move.apply shape = .ok image ∧ image.Normal ∧ image.Narrow ∧
      ∃ offset, ∀ point, image.Has point ↔ ∃ source, shape.Has source ∧ point = move.act source + offset := by
  obtain ⟨target, moved⟩ := exists_moved normal narrow move
  obtain ⟨image, built⟩ := exists_image moved normal narrow
  exact ⟨image, (apply_eq normal.cells_ne_nil moved).trans built, normal_ofCells built,
    narrow_image moved normal narrow built, has_image moved built⟩

theorem Turned.next {orientation : Orientation} {middle : Polyomino} {move : Move}
    (turned : Turned orientation shape middle) (moved : ∃ offset, ∀ point, image.Has point ↔
      ∃ source, middle.Has source ∧ point = move.act source + offset) :
    Turned (.next move orientation) shape image := by
  obtain ⟨first, middles⟩ := turned
  obtain ⟨second, images⟩ := moved
  refine ⟨move.act first + second, fun point => ?_⟩
  rw [images]
  simp only [middles, Orientation.act_next]
  constructor
  · intro found
    obtain ⟨_, ⟨source, has, rfl⟩, rfl⟩ := found
    exact ⟨source, has, by rw [Move.act_add, add_assoc]⟩
  · intro found
    obtain ⟨source, has, rfl⟩ := found
    exact ⟨_, ⟨source, has, rfl⟩, by rw [Move.act_add, add_assoc]⟩

end Polyomino

end GridPuzzle
