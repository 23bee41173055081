import GridPuzzle.Proofs.Board.Placement
import GridPuzzle.Proofs.Polyomino.Connected
import GridPuzzle.Proofs.Polyomino.Orbit

/-!
How far apart the cells of a shape lie. A quarter turn makes rows of the columns, so the orientations of a shape fit
only if its columns lie close enough together, and the steps out of all of them fit only if its rows and columns do.
-/
namespace GridPuzzle.Polyomino

variable {symmetry : Symmetry} {shape image : Polyomino}

theorem Normal.exists_rotated (normal : shape.Normal) (turned : shape.rotate = .ok image) :
    ∃ top : ℤ, ∀ cell ∈ shape.cells, ∃ moved ∈ image.cells, moved.row.val = top - cell.col.val := by
  rw [rotate, mapCells_eq normal.cells_ne_nil] at turned
  obtain ⟨cells, mapped, built⟩ := Outcome.bind_eq_ok.mp turned
  obtain ⟨offset, images⟩ := has_ofCells built
  refine ⟨offset.1, fun cell member => ?_⟩
  obtain ⟨target, listed, made⟩ := Outcome.mem_of_forall₂ (Outcome.mapM_eq_ok.mp mapped).flip member
  obtain ⟨row, negated, same⟩ := Outcome.bind_eq_ok.mp made
  cases Outcome.pure_eq_ok.mp same
  obtain ⟨moved, inside, placed⟩ := (images _).mpr ⟨_, listed, rfl⟩
  have rows : moved.row.val = row.val + offset.1 := congrArg Prod.fst placed
  have opposite : row.val = -cell.col.val := Coord.checked_eq_ok_iff.mp negated
  exact ⟨moved, inside, by omega⟩

theorem Normal.narrow_of_rotate (normal : shape.Normal) (turned : Move.rotate.apply shape = .ok image) :
    shape.Narrow := by
  obtain ⟨top, rotated⟩ := normal.exists_rotated turned
  have imageNormal := normal.of_apply turned
  intro a inA b inB
  obtain ⟨a', inA', fromA⟩ := rotated a inA
  obtain ⟨b', inB', fromB⟩ := rotated b inB
  have low := imageNormal.row_bounds inA'
  have high := imageNormal.row_bounds inB'
  omega

/-- The orientations can be listed exactly if the columns lie close enough together for a quarter turn. -/
theorem Normal.exists_orientations_iff (normal : shape.Normal) :
    (∃ found, shape.orientations .full = .ok found) ↔ shape.Narrow := by
  constructor
  · rintro ⟨found, ended⟩
    obtain ⟨images, mapped, _⟩ := Outcome.bind_eq_ok.mp ended
    obtain ⟨image, _, turned⟩ := Outcome.mem_of_forall₂ (Outcome.mapM_eq_ok.mp mapped).flip
      (show Move.rotate ∈ Symmetry.full.moves by decide)
    exact normal.narrow_of_rotate turned
  · intro narrow
    obtain ⟨found, ended, _⟩ := normal.orientations_ok narrow .full
    exact ⟨found, ended⟩

/-- Orientations that are listed are what the moves of all symmetries lead to, the shape itself first. -/
theorem Normal.explored_of_orientations (normal : shape.Normal) {found : List Polyomino}
    (ended : shape.orientations .full = .ok found) : shape.Narrow ∧ found.head? = some shape ∧
      Explored Symmetry.full.moves found found ∧ ∀ image, image ∈ found ↔ Symmetry.full.Leads shape image := by
  have narrow := normal.exists_orientations_iff.mp ⟨found, ended⟩
  obtain ⟨_, ended', explored⟩ := normal.orientations_ok narrow .full
  cases ended.symm.trans ended'
  exact ⟨narrow, explored⟩

theorem Normal.of_orientations (normal : shape.Normal) {found : List Polyomino}
    (ended : shape.orientations .full = .ok found) (member : image ∈ found) :
    image.Normal ∧ image.Narrow ∧ ∃ orientation, Turned orientation shape image := by
  obtain ⟨narrow, _, _, led⟩ := normal.explored_of_orientations ended
  obtain ⟨imageNormal, imageNarrow, orientation, _, turned⟩ := normal.of_leads narrow ((led image).mp member)
  exact ⟨imageNormal, imageNarrow, orientation, turned⟩

/-- All rows and all columns lie closer together than coordinates can. -/
def Compact (shape : Polyomino) : Prop :=
  ∀ a ∈ shape.cells, ∀ b ∈ shape.cells,
    a.row.val - b.row.val ≤ 2147483646 ∧ a.col.val - b.col.val ≤ 2147483646

theorem Turned.compact {orientation : Orientation} (turned : Turned orientation shape image)
    (compact : shape.Compact) : image.Compact := by
  obtain ⟨offset, source, _⟩ := turned.source
  intro a inA b inB
  obtain ⟨a', inA', fromA⟩ := source a inA
  obtain ⟨b', inB', fromB⟩ := source b inB
  have distances := Adjacency.distances_act fromA fromB
  have spans := compact a' inA' b' inB'
  have spans' := compact b' inB' a' inA'
  omega

theorem Normal.compact_bounds (normal : shape.Normal) (compact : shape.Compact) {cell : Cell}
    (member : cell ∈ shape.cells) : (0 ≤ cell.row.val ∧ cell.row.val ≤ 2147483646) ∧
      -2147483646 ≤ cell.col.val ∧ cell.col.val ≤ 2147483646 := by
  have origin := List.mem_of_head? normal.first
  have zero : (Cell.of 0 0).row.val = 0 ∧ (Cell.of 0 0).col.val = 0 := ⟨rfl, rfl⟩
  have after := compact cell member _ origin
  have before := compact _ origin cell member
  have rows := normal.row_bounds member
  omega

/-- Every step from a cell of the shape leads to a cell. -/
def Roomy (shape : Polyomino) : Prop :=
  ∀ step ∈ Cell.steps shape.cells, ∃ next, step.1.shift step.2 = .ok next

theorem Normal.row_span_of_roomy (normal : shape.Normal) (roomy : shape.Roomy) {a b : Cell}
    (inA : a ∈ shape.cells) (inB : b ∈ shape.cells) : a.row.val - b.row.val ≤ 2147483646 := by
  have down : (a, Side.down.offset) ∈ Cell.steps shape.cells :=
    Cell.mem_steps.mpr ⟨inA, Board.offset_mem_surroundings .down⟩
  have below : a.row.val + Side.down.offset.row.val ≤ 2147483647 := (Cell.exists_shift_iff.mp (roomy _ down)).1.2
  have one : Side.down.offset.row.val = 1 := rfl
  have high := normal.row_bounds inB
  omega

/-- The steps out of a compact shape lead to cells that keep off the least coordinate. -/
theorem Normal.step_bounds (normal : shape.Normal) (compact : shape.Compact) :
    ∀ step ∈ Cell.steps shape.cells, ∃ next, step.1.shift step.2 = .ok next ∧
      next.row.val ≠ -2147483648 ∧ next.col.val ≠ -2147483648 := by
  intro step member
  obtain ⟨inside, around⟩ := Cell.mem_steps.mp member
  have own := normal.compact_bounds compact inside
  have small := Board.small_of_mem_surroundings step.2 around
  obtain ⟨next, stepped⟩ : ∃ next, step.1.shift step.2 = .ok next := Cell.exists_shift_iff.mpr (by omega)
  have moved := Cell.shift_eq_ok.mp stepped
  exact ⟨next, stepped, by omega, by omega⟩

section Orientations

variable (normal : shape.Normal) {found : List Polyomino} (ended : shape.orientations .full = .ok found)
include normal ended

theorem Normal.mem_orientations : shape ∈ found :=
  List.mem_of_head? (normal.explored_of_orientations ended).2.1

theorem Normal.compact_of_roomy (roomy : ∀ image ∈ found, image.Roomy) : shape.Compact := by
  obtain ⟨_, _, explored, _⟩ := normal.explored_of_orientations ended
  have listed := normal.mem_orientations ended
  intro a inA b inB
  refine ⟨normal.row_span_of_roomy (roomy shape listed) inA inB, ?_⟩
  -- the columns are the rows of the shape after a quarter turn, which is listed too
  obtain ⟨image, inside, turned⟩ := explored.closed shape listed .rotate (by decide)
  obtain ⟨top, rotated⟩ := normal.exists_rotated turned
  obtain ⟨a', inA', fromA⟩ := rotated a inA
  obtain ⟨b', inB', fromB⟩ := rotated b inB
  have span := (normal.of_apply turned).row_span_of_roomy (roomy image inside) inB' inA'
  omega

theorem Normal.steps_of_compact (compact : shape.Compact) : ∀ image ∈ found, ∀ step ∈ Cell.steps image.cells,
    ∃ next, step.1.shift step.2 = .ok next ∧ next.row.val ≠ -2147483648 ∧ next.col.val ≠ -2147483648 := by
  intro image member
  obtain ⟨imageNormal, _, _, turned⟩ := normal.of_orientations ended member
  exact imageNormal.step_bounds (turned.compact compact)

end Orientations

/-- A shift keeps how far apart cells are, so what holds of the differences in a shape holds of those in its cells. -/
theorem ofCells_differences {cells : List Cell} (made : ofCells cells = .ok shape) (apart : ℤ → ℤ → Prop) :
    (∀ a ∈ shape.cells, ∀ b ∈ shape.cells, apart (a.row.val - b.row.val) (a.col.val - b.col.val)) ↔
      ∀ a ∈ cells, ∀ b ∈ cells, apart (a.row.val - b.row.val) (a.col.val - b.col.val) := by
  obtain ⟨offset, has⟩ := has_ofCells made
  have same {a b a' b' : Cell} (first : a.point = a'.point + offset) (second : b.point = b'.point + offset) :
      a.row.val - b.row.val = a'.row.val - b'.row.val ∧ a.col.val - b.col.val = a'.col.val - b'.col.val := by
    simp only [Cell.point, Prod.ext_iff, Prod.fst_add, Prod.snd_add] at first second
    omega
  have shifted (cell : Cell) (member : cell ∈ cells) : ∃ own ∈ shape.cells, own.point = cell.point + offset :=
    (has _).mpr ⟨cell, member, rfl⟩
  have source (own : Cell) (member : own ∈ shape.cells) : ∃ cell ∈ cells, own.point = cell.point + offset :=
    (has _).mp ⟨own, member, rfl⟩
  constructor
  · intro all a inA b inB
    obtain ⟨a', inA', fromA⟩ := shifted a inA
    obtain ⟨b', inB', fromB⟩ := shifted b inB
    rw [← (same fromA fromB).1, ← (same fromA fromB).2]
    exact all a' inA' b' inB'
  · intro all a inA b inB
    obtain ⟨a', inA', fromA⟩ := source a inA
    obtain ⟨b', inB', fromB⟩ := source b inB
    rw [(same fromA fromB).1, (same fromA fromB).2]
    exact all a' inA' b' inB'

end GridPuzzle.Polyomino
