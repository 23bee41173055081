import Mathlib.Order.Bounds.Basic
import GridPuzzle.Proofs.Polyomino.Action
import GridPuzzle.Proofs.Polyomino.Span

/-!
Moves one after the other. What moves make of a shape depends on nothing but the orientation that they compose to, so
shapes obey the laws of turning a square. An orientation keeps the number of cells, and it keeps the extent or swaps
its height and width.
-/
namespace GridPuzzle

/-- Make the moves, the first of them first. -/
def Move.applyAll (moves : List Move) (shape : Polyomino) : Except Error Polyomino :=
  moves.foldlM (fun shape move => move.apply shape) shape

namespace Orientation

/-- The orientation that moves give an upright shape. -/
def ofMoves (moves : List Move) : Orientation :=
  moves.foldl (fun orientation move => next move orientation) upright

theorem act_injective (orientation : Orientation) : Function.Injective orientation.act := by
  intro point point' same
  have undone := congrArg orientation⁻¹.act same
  rw [← act_mul, ← act_mul, undo_after] at undone
  exact undone

end Orientation

namespace Polyomino

variable {shape image : Polyomino} {orientation : Orientation} {moves moves' : List Move}

theorem Normal.applyAll_ok (normal : shape.Normal) (narrow : shape.Narrow) (moves : List Move) :
    ∃ image, Move.applyAll moves shape = .ok image ∧ Turned (.ofMoves moves) shape image ∧ image.Normal := by
  have run (before : Polyomino) (beforeNormal : before.Normal) (beforeNarrow : before.Narrow)
      (orientation : Orientation) (turned : Turned orientation shape before) : ∃ image,
      Move.applyAll moves before = .ok image ∧
        Turned (moves.foldl (fun orientation move => .next move orientation) orientation) shape image ∧
          image.Normal := by
    induction moves generalizing before orientation with
    | nil => exact ⟨before, rfl, turned, beforeNormal⟩
    | cons move moves ih =>
      obtain ⟨middle, applied, middleNormal, middleNarrow, moved⟩ := beforeNormal.apply_ok beforeNarrow move
      obtain ⟨image, ended, reached⟩ := ih middle middleNormal middleNarrow _ (turned.next moved)
      refine ⟨image, ?_, reached⟩
      rw [Move.applyAll, List.foldlM_cons, Outcome.bind_of_ok applied]
      exact ended
  exact run shape normal narrow .upright (.refl shape)

/-- Moves that compose to the same orientation make the same shape. -/
theorem Normal.applyAll_congr (normal : shape.Normal) (narrow : shape.Narrow)
    (same : Orientation.ofMoves moves = .ofMoves moves') : Move.applyAll moves shape = Move.applyAll moves' shape := by
  obtain ⟨image, ended, turned, imageNormal⟩ := normal.applyAll_ok narrow moves
  obtain ⟨image', ended', turned', imageNormal'⟩ := normal.applyAll_ok narrow moves'
  rw [same] at turned
  rw [ended, ended', turned.unique turned' imageNormal imageNormal']

theorem Turned.size_eq (turned : Turned orientation shape image) (normal : shape.Normal)
    (imageNormal : image.Normal) : image.size = shape.size := by
  obtain ⟨offset, images⟩ := turned
  have points (shape : Polyomino) (normal : shape.Normal) : (shape.cells.map Cell.point).Nodup :=
    normal.increasing.nodup.map Cell.point_injective
  have moved : ((shape.cells.map Cell.point).map fun point => orientation.act point + offset).Nodup :=
    (points shape normal).map ((add_left_injective offset).comp orientation.act_injective)
  have listed : (image.cells.map Cell.point).Perm
      ((shape.cells.map Cell.point).map fun point => orientation.act point + offset) := by
    refine (List.perm_ext_iff_of_nodup (points image imageNormal) moved).mpr fun point => ?_
    rw [List.mem_map, List.mem_map]
    refine (images point).trans (exists_congr fun source => ?_)
    rw [List.mem_map, eq_comm (a := point)]
    exact Iff.rfl
  have lengths := listed.length_eq
  rw [List.length_map, List.length_map, List.length_map] at lengths
  exact lengths

/-- How far apart two cells of the shape lie, in columns or in rows. -/
def distances (shape : Polyomino) (columns : Bool) : Set ℕ :=
  {distance | ∃ a ∈ shape.cells, ∃ b ∈ shape.cells, (a.along columns - b.along columns).natAbs = distance}

theorem Turned.distances_eq (turned : Turned orientation shape image) (columns : Bool) :
    image.distances columns = shape.distances (columns ^^ orientation.swapped) := by
  obtain ⟨offset, source, target⟩ := turned.source
  ext distance
  constructor
  · rintro ⟨a, inA, b, inB, rfl⟩
    obtain ⟨a', inA', fromA⟩ := source a inA
    obtain ⟨b', inB', fromB⟩ := source b inB
    exact ⟨a', inA', b', inB', (Cell.distance_act fromA fromB columns).symm⟩
  · rintro ⟨a, inA, b, inB, rfl⟩
    obtain ⟨a', inA', toA⟩ := target a inA
    obtain ⟨b', inB', toB⟩ := target b inB
    exact ⟨a', inA', b', inB', Cell.distance_act toA toB columns⟩

/-- The extent is one more than the greatest distances, where these sums fit. -/
theorem Normal.extent_eq_ok_iff (normal : shape.Normal) {height width : Coord} :
    shape.extent = .ok (height, width) ↔
      (∃ rows, IsGreatest (shape.distances false) rows ∧ height.val = rows + 1) ∧
        ∃ cols, IsGreatest (shape.distances true) cols ∧ width.val = cols + 1 := by
  obtain ⟨top, inTop, bottom, inBottom, left, inLeft, right, inRight, within, extent_iff⟩ := normal.exists_extent
  have rows : IsGreatest (shape.distances false) (bottom.row.val - top.row.val).natAbs := by
    refine ⟨⟨bottom, inBottom, top, inTop, rfl⟩, ?_⟩
    rintro _ ⟨a, inA, b, inB, rfl⟩
    have boundA := (within a inA).1
    have boundB := (within b inB).1
    change (a.row.val - b.row.val).natAbs ≤ _
    omega
  have cols : IsGreatest (shape.distances true) (right.col.val - left.col.val).natAbs := by
    refine ⟨⟨right, inRight, left, inLeft, rfl⟩, ?_⟩
    rintro _ ⟨a, inA, b, inB, rfl⟩
    have boundA := (within a inA).2
    have boundB := (within b inB).2
    change (a.col.val - b.col.val).natAbs ≤ _
    omega
  have down := (within bottom inBottom).1.1
  have along := (within right inRight).2.1
  rw [extent_iff]
  constructor
  · intro counts
    exact ⟨⟨_, rows, by omega⟩, _, cols, by omega⟩
  · rintro ⟨⟨tall, mostRows, height⟩, wide, mostCols, width⟩
    rw [mostRows.unique rows] at height
    rw [mostCols.unique cols] at width
    omega

theorem Turned.extent_iff (turned : Turned orientation shape image) (normal : shape.Normal)
    (imageNormal : image.Normal) {height width : Coord} : shape.extent = .ok (height, width) ↔
      image.extent = .ok (if orientation.swapped then (width, height) else (height, width)) := by
  obtain ⟨swapped, rowsBack, colsBack⟩ := orientation
  have rows := turned.distances_eq false
  have cols := turned.distances_eq true
  cases swapped with
  | false => rw [if_neg Bool.false_ne_true, normal.extent_eq_ok_iff, imageNormal.extent_eq_ok_iff, rows, cols]; rfl
  | true =>
    rw [if_pos rfl, normal.extent_eq_ok_iff, imageNormal.extent_eq_ok_iff, rows, cols]
    exact and_comm

/-- For every shape whose columns are not too far apart, no move is refused: four turns and two reflections bring back
the shape, to turn and then reflect is to reflect and then turn three times, both moves keep the number of cells, a turn
swaps the height and the width, and a reflection keeps them. Where columns are too far apart, a turn overflows. -/
theorem moves_compose (built : shape.Built) :
    ((∀ a ∈ shape.cells, ∀ b ∈ shape.cells, a.col.val - b.col.val ≤ 2147483647) →
      (shape.rotate >>= rotate >>= rotate >>= rotate) = .ok shape ∧
      (shape.reflect >>= reflect) = .ok shape ∧
      (∃ image, (shape.rotate >>= reflect) = .ok image ∧
        (shape.reflect >>= rotate >>= rotate >>= rotate) = .ok image) ∧
      ∃ turned mirrored, shape.rotate = .ok turned ∧ shape.reflect = .ok mirrored ∧
        turned.size = shape.size ∧ mirrored.size = shape.size ∧
        ∀ height width, (shape.extent = .ok (height, width) ↔ turned.extent = .ok (width, height)) ∧
          (shape.extent = .ok (height, width) ↔ mirrored.extent = .ok (height, width))) ∧
    ((∃ a ∈ shape.cells, ∃ b ∈ shape.cells, 2147483647 < a.col.val - b.col.val) →
      ∃ operation, shape.rotate = .error (.overflow operation)) := by
  have normal := built.normal
  refine ⟨fun narrow => ?_, fun wide => ?_⟩
  · have law (moves moves' : List Move) (same : Orientation.ofMoves moves = .ofMoves moves') :
        Move.applyAll moves shape = Move.applyAll moves' shape := normal.applyAll_congr narrow same
    have four := law [.rotate, .rotate, .rotate, .rotate] [] rfl
    have two := law [.reflect, .reflect] [] rfl
    have swap := law [.rotate, .reflect] [.reflect, .rotate, .rotate, .rotate] rfl
    obtain ⟨image, ended, _⟩ := normal.applyAll_ok narrow [.rotate, .reflect]
    rw [ended] at swap
    simp only [Move.applyAll, List.foldlM_cons, List.foldlM_nil, Move.apply, bind_pure] at four two swap ended
    obtain ⟨turned, rotated, turnedNormal, _, byTurn⟩ := normal.apply_ok narrow .rotate
    obtain ⟨mirrored, reflected, mirroredNormal, _, byMirror⟩ := normal.apply_ok narrow .reflect
    have isTurned := (Turned.refl shape).next byTurn
    have isMirrored := (Turned.refl shape).next byMirror
    refine ⟨?_, two, ⟨image, ended, ?_⟩, turned, mirrored, rotated, reflected, isTurned.size_eq normal turnedNormal,
      isMirrored.size_eq normal mirroredNormal, fun height width => ⟨isTurned.extent_iff normal turnedNormal,
        isMirrored.extent_iff normal mirroredNormal⟩⟩
    · rw [bind_assoc, bind_assoc]
      exact four
    · rw [bind_assoc, bind_assoc]
      exact swap.symm
  · obtain ⟨a, inA, b, inB, far⟩ := wide
    cases turned : shape.rotate with
    | error error =>
      obtain ⟨operation, rfl⟩ := apply_refusedOnly .rotate shape error turned
      exact ⟨operation, rfl⟩
    | ok image =>
      have narrow := normal.narrow_of_rotate turned a inA b inB
      omega

/-- Cells whose columns are one too far apart for a turn. -/
def wideShape : Polyomino := ⟨[.of 0 0, ⟨.of 1, ⟨-2147483647, by decide⟩⟩, .of 2 1]⟩

theorem moves_compose_pairs : (farPair.rotate >>= rotate >>= rotate >>= rotate) = .ok farPair ∧
    (∃ turned, flattened.rotate = .ok turned ∧ turned.size = 2 ∧ turned.extent = .ok (.of 2, .of 1)) ∧
    ∃ operation, wideShape.rotate = .error (.overflow operation) := by
  have far : ofCells farPair.cells = .ok farPair := by decide
  have wide : ofCells wideShape.cells = .ok wideShape := by decide
  have flat : flattened.extent = .ok (.of 1, .of 2) := by decide
  obtain ⟨_, _, _, turned, _, rotated, _, size, _, extents⟩ := (moves_compose flattened_built).1 (by decide)
  refine ⟨((moves_compose (.ofCells far)).1 (by decide)).1, ⟨turned, rotated, size, (extents _ _).1.mp flat⟩, ?_⟩
  exact (moves_compose (.ofCells wide)).2
    ⟨.of 2 1, by decide, ⟨.of 1, ⟨-2147483647, by decide⟩⟩, by decide, by decide⟩

end Polyomino

end GridPuzzle
