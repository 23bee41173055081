import Mathlib.Data.Int.Interval
import Mathlib.Logic.Relation
import GridPuzzle.Proofs.Board.Joined
import GridPuzzle.Proofs.Polyomino.Turn

/-!
Connected shapes. A shape is connected if cells that touch lead from each of its cells to each other one. It
stays so however it is turned, and it is no wider and no higher than it has cells.
-/
namespace GridPuzzle

/-- The column of a cell, or its row. -/
def Cell.along (columns : Bool) (cell : Cell) : ℤ := if columns then cell.col.val else cell.row.val

/-- Turns and shifts keep how far apart two cells are, in rows and in columns or the other way round. -/
theorem Cell.distance_act {orientation : Orientation} {offset : ℤ × ℤ} {a b a' b' : Cell}
    (first : a'.point = orientation.act a.point + offset) (second : b'.point = orientation.act b.point + offset)
    (columns : Bool) : (a'.along columns - b'.along columns).natAbs =
      (a.along (columns ^^ orientation.swapped) - b.along (columns ^^ orientation.swapped)).natAbs := by
  obtain ⟨swapped, rowsBack, colsBack⟩ := orientation
  cases columns <;> cases swapped <;> cases rowsBack <;> cases colsBack <;>
    simp [Cell.along, Cell.point, Orientation.act, Orientation.sign, Prod.ext_iff] at first second ⊢ <;> omega

namespace Adjacency

variable {kind : Adjacency} {a b a' b' : Cell}

theorem touches_iff : kind.touches a b = .ok true ↔ kind.Near a b :=
  ⟨fun touches => (near_of_touches touches).mp rfl, touches_of_near⟩

theorem distances_act {orientation : Orientation} {offset : ℤ × ℤ}
    (first : a'.point = orientation.act a.point + offset) (second : b'.point = orientation.act b.point + offset) :
    (a'.row.val - b'.row.val).natAbs = (a.row.val - b.row.val).natAbs ∧
      (a'.col.val - b'.col.val).natAbs = (a.col.val - b.col.val).natAbs ∨
    (a'.row.val - b'.row.val).natAbs = (a.col.val - b.col.val).natAbs ∧
      (a'.col.val - b'.col.val).natAbs = (a.row.val - b.row.val).natAbs := by
  have rows := Cell.distance_act first second false
  have cols := Cell.distance_act first second true
  cases swapped : orientation.swapped with
  | false =>
    rw [swapped] at rows cols
    exact .inl ⟨rows, cols⟩
  | true =>
    rw [swapped] at rows cols
    exact .inr ⟨rows, cols⟩

theorem near_act {orientation : Orientation} {offset : ℤ × ℤ}
    (first : a'.point = orientation.act a.point + offset) (second : b'.point = orientation.act b.point + offset) :
    kind.Near a' b' ↔ kind.Near a b := by
  rcases distances_act first second with ⟨rows, cols⟩ | ⟨rows, cols⟩
  · cases kind <;> simp only [Near, rows, cols]
  · cases kind <;> simp only [Near, rows, cols, Nat.add_comm, and_comm]

end Adjacency

namespace Polyomino

variable {kind : Adjacency} {shape image : Polyomino}

/-- From each cell to each other one there is a way over cells of the shape that touch. -/
def Connected (shape : Polyomino) (kind : Adjacency) : Prop :=
  ∀ a ∈ shape.cells, ∀ b ∈ shape.cells,
    Relation.ReflTransGen (fun p q => q ∈ shape.cells ∧ kind.touches p q = .ok true) a b

theorem mem_of_path {a b : Cell} (inA : a ∈ shape.cells)
    (path : Relation.ReflTransGen (fun p q => q ∈ shape.cells ∧ kind.touches p q = .ok true) a b) :
    b ∈ shape.cells := by
  cases path with
  | refl => exact inA
  | tail _ last => exact last.1

theorem Turned.source {orientation : Orientation} (turned : Turned orientation shape image) :
    ∃ offset, (∀ cell ∈ image.cells, ∃ own ∈ shape.cells, cell.point = orientation.act own.point + offset) ∧
      ∀ own ∈ shape.cells, ∃ cell ∈ image.cells, cell.point = orientation.act own.point + offset := by
  obtain ⟨offset, images⟩ := turned
  refine ⟨offset, fun cell member => ?_, fun own member => (images _).mpr ⟨own.point, ⟨own, member, rfl⟩, rfl⟩⟩
  obtain ⟨_, ⟨own, inside, rfl⟩, same⟩ := (images cell.point).mp ⟨cell, member, rfl⟩
  exact ⟨own, inside, same⟩

theorem Turned.connected {orientation : Orientation} (turned : Turned orientation shape image)
    (connected : shape.Connected kind) : image.Connected kind := by
  obtain ⟨offset, source, moved⟩ := turned.source
  intro a inA b inB
  obtain ⟨a', inA', fromA⟩ := source a inA
  obtain ⟨b', inB', fromB⟩ := source b inB
  have path := connected a' inA' b' inB'
  clear inB'
  induction path generalizing b with
  | refl => rw [Cell.point_injective (fromA.trans fromB.symm)]
  | @tail p q before step ih =>
    obtain ⟨p', inP', fromP⟩ := moved p (mem_of_path inA' before)
    have near := (Adjacency.near_act fromP fromB).mpr (Adjacency.touches_iff.mp step.2)
    exact (ih p' inP' fromP).tail ⟨inB, Adjacency.touches_iff.mpr near⟩

/-- A measure that changes by at most one from cell to cell takes every value between two of its values. -/
private theorem exists_between (measure : Cell → ℤ)
    (slow : ∀ a b, kind.Near a b → (measure a - measure b).natAbs ≤ 1) {a b : Cell} (inA : a ∈ shape.cells)
    (path : Relation.ReflTransGen (fun p q => q ∈ shape.cells ∧ kind.touches p q = .ok true) a b) (value : ℤ)
    (between : measure a ≤ value ∧ value ≤ measure b ∨ measure b ≤ value ∧ value ≤ measure a) :
    ∃ cell ∈ shape.cells, measure cell = value := by
  induction path with
  | refl => exact ⟨a, inA, by omega⟩
  | @tail p q _ step ih =>
    have close := slow p q (Adjacency.touches_iff.mp step.2)
    by_cases last : value = measure q
    · exact ⟨q, step.1, last.symm⟩
    · exact ih (by omega)

private theorem Connected.measure_lt (connected : shape.Connected kind) (measure : Cell → ℤ)
    (slow : ∀ a b, kind.Near a b → (measure a - measure b).natAbs ≤ 1) {a b : Cell} (inA : a ∈ shape.cells)
    (inB : b ∈ shape.cells) : (measure a - measure b).natAbs < shape.size := by
  have taken : Finset.Icc (min (measure a) (measure b)) (max (measure a) (measure b)) ⊆
      (shape.cells.map measure).toFinset := by
    intro value member
    rw [Finset.mem_Icc] at member
    obtain ⟨cell, inside, same⟩ := exists_between measure slow inA (connected a inA b inB) value (by omega)
    exact List.mem_toFinset.mpr (List.mem_map.mpr ⟨cell, inside, same⟩)
  have count := (Finset.card_le_card taken).trans (List.toFinset_card_le _)
  rw [Int.card_Icc, List.length_map] at count
  unfold size
  omega

theorem Connected.span_lt (connected : shape.Connected kind) {a b : Cell} (inA : a ∈ shape.cells)
    (inB : b ∈ shape.cells) :
    (a.row.val - b.row.val).natAbs < shape.size ∧ (a.col.val - b.col.val).natAbs < shape.size :=
  ⟨connected.measure_lt (fun cell => cell.row.val) (fun _ _ near => near.close.1) inA inB,
    connected.measure_lt (fun cell => cell.col.val) (fun _ _ near => near.close.2) inA inB⟩

theorem Turned.span_lt {orientation : Orientation} (turned : Turned orientation shape image)
    (connected : shape.Connected kind) {a b : Cell} (inA : a ∈ image.cells) (inB : b ∈ image.cells) :
    (a.row.val - b.row.val).natAbs < shape.size ∧ (a.col.val - b.col.val).natAbs < shape.size := by
  obtain ⟨offset, source, _⟩ := turned.source
  obtain ⟨a', inA', fromA⟩ := source a inA
  obtain ⟨b', inB', fromB⟩ := source b inB
  have distances := Adjacency.distances_act fromA fromB
  have spans := connected.span_lt inA' inB'
  omega

end Polyomino

end GridPuzzle
