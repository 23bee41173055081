import Mathlib.Algebra.Group.Prod
import Mathlib.Algebra.Group.Int.Defs
import Mathlib.Algebra.Group.Nat.Defs
import GridPuzzle.Polyomino.Basic
import GridPuzzle.Proofs.Cell

/-!
Normal shapes. What is built from cells is normal and holds these cells up to a shift, and two normal
shapes that differ by a shift are equal.
-/
namespace GridPuzzle

/-- The cell as a point of the plane, where shifts do not end. -/
def Cell.point (cell : Cell) : ℤ × ℤ := (cell.row.val, cell.col.val)

theorem Cell.point_injective : Function.Injective Cell.point := by
  intro a b same
  exact Cell.ext (congrArg Prod.fst same) (congrArg Prod.snd same)

namespace Polyomino

structure Normal (shape : Polyomino) : Prop where
  increasing : Cell.Increasing shape.cells
  first : shape.cells.head? = some (.of 0 0)

def Has (shape : Polyomino) (point : ℤ × ℤ) : Prop := ∃ cell ∈ shape.cells, cell.point = point

theorem has_point_iff {shape : Polyomino} {cell : Cell} : shape.Has cell.point ↔ cell ∈ shape.cells :=
  ⟨fun ⟨_, member, same⟩ => Cell.point_injective same ▸ member, fun member => ⟨cell, member, rfl⟩⟩

theorem settle_eq_ok {least : Cell} {rest : List Cell} {shape : Polyomino} :
    settle (least :: rest) = .ok shape ↔
      (least.row.val ≠ -2147483648 ∧ least.col.val ≠ -2147483648) ∧
        List.Forall₂ (fun cell target => target.point = cell.point - least.point)
          (least :: rest) shape.cells := by
  have low := least.row.inRange
  have left := least.col.inRange
  simp only [settle, moveToOrigin, Outcome.bind_eq_ok, Outcome.pure_eq_ok, Outcome.mapM_eq_ok, Cell.shift_eq_ok,
    Coord.neg, Coord.checked_eq_ok_iff]
  have same (row col : Coord) (rows : row.val = -least.row.val) (cols : col.val = -least.col.val)
      (cell target : Cell) : (target.row.val = cell.row.val + row.val ∧
        target.col.val = cell.col.val + col.val) ↔ target.point = cell.point - least.point := by
    rw [rows, cols, Cell.point, Cell.point, Cell.point, Prod.mk_sub_mk, Prod.mk.injEq]
    rfl
  constructor
  · intro parts
    obtain ⟨row, rows, col, cols, cells, placed, rfl⟩ := parts
    have rowFits := row.inRange
    have colFits := col.inRange
    refine ⟨⟨by omega, by omega⟩, ?_⟩
    exact placed.imp fun cell target => (same row col rows cols cell target).mp
  · intro parts
    obtain ⟨⟨rowFits, colFits⟩, placed⟩ := parts
    refine ⟨⟨-least.row.val, by omega⟩, rfl, ⟨-least.col.val, by omega⟩, rfl, shape.cells, ?_, rfl⟩
    exact placed.imp fun cell target => (same _ _ rfl rfl cell target).mpr

private theorem shifted_increasing {cells targets : List Cell} {offset : ℤ × ℤ}
    (shifted : List.Forall₂ (fun cell target => target.point = cell.point - offset) cells targets)
    (increasing : Cell.Increasing cells) : Cell.Increasing targets := by
  induction shifted with
  | nil => exact List.Pairwise.nil
  | @cons cell target cells targets head tail ih =>
    obtain ⟨first, others⟩ := List.pairwise_cons.mp increasing
    refine List.pairwise_cons.mpr ⟨?_, ih others⟩
    intro other member
    obtain ⟨source, inside, moved⟩ := Outcome.mem_of_forall₂ tail member
    have less := first source inside
    simp only [Cell.point, Prod.ext_iff, Prod.fst_sub, Prod.snd_sub] at head moved
    rw [Cell.lt_iff] at less ⊢
    omega

theorem normal_settle {cells : List Cell} {shape : Polyomino} (increasing : Cell.Increasing cells)
    (settled : settle cells = .ok shape) : shape.Normal := by
  cases cells with
  | nil => cases settled
  | cons least rest =>
    have placed := (settle_eq_ok.mp settled).2
    refine ⟨shifted_increasing placed increasing, ?_⟩
    obtain ⟨first, targets, origin, _, same⟩ := List.forall₂_cons_left_iff.mp placed
    rw [same, List.head?_cons]
    refine congrArg some (Cell.point_injective ?_)
    rw [origin, sub_self]
    rfl

theorem normal_ofCells {cells : List Cell} {shape : Polyomino} (built : ofCells cells = .ok shape) :
    shape.Normal :=
  normal_settle (Cell.sort_increasing cells) built

/-- A map of some cells is the shape of their images: there are images, so that nothing has to check it. -/
theorem mapCells_eq {shape : Polyomino} (nonempty : shape.cells ≠ []) (move : Cell → Except Error Cell) :
    shape.mapCells move = shape.cells.mapM move >>= ofCells := by
  unfold mapCells
  cases moved : shape.cells.mapM move with
  | error error => rfl
  | ok images =>
    have some : images ≠ [] := by
      rintro rfl
      exact nonempty (List.forall₂_nil_right_iff.mp (Outcome.mapM_eq_ok.mp moved))
    obtain ⟨least, rest, sorted⟩ := List.exists_cons_of_ne_nil (Cell.sort_ne_nil some)
    change moveToOrigin ((Cell.sort images).headD (.of 0 0)) (Cell.sort images) = settle (Cell.sort images)
    rw [sorted]
    rfl

theorem normal_mapCells {move : Cell → Except Error Cell} {shape image : Polyomino} (nonempty : shape.cells ≠ [])
    (mapped : shape.mapCells move = .ok image) : image.Normal := by
  rw [mapCells_eq nonempty] at mapped
  obtain ⟨cells, _, built⟩ := Outcome.bind_eq_ok.mp mapped
  exact normal_ofCells built

theorem has_settle {least : Cell} {rest : List Cell} {shape : Polyomino}
    (settled : settle (least :: rest) = .ok shape) (point : ℤ × ℤ) :
    shape.Has point ↔ ∃ cell ∈ least :: rest, point = cell.point - least.point := by
  have placed := (settle_eq_ok.mp settled).2
  constructor
  · intro parts
    obtain ⟨target, inside, rfl⟩ := parts
    exact Outcome.mem_of_forall₂ placed inside
  · intro parts
    obtain ⟨cell, inside, rfl⟩ := parts
    exact Outcome.mem_of_forall₂ placed.flip inside

theorem has_ofCells {cells : List Cell} {shape : Polyomino} (built : ofCells cells = .ok shape) :
    ∃ offset, ∀ point, shape.Has point ↔ ∃ cell ∈ cells, point = cell.point + offset := by
  unfold ofCells at built
  cases sorted : Cell.sort cells with
  | nil =>
    rw [sorted] at built
    cases built
  | cons least rest =>
    rw [sorted] at built
    have member (cell : Cell) : cell ∈ cells ↔ cell ∈ least :: rest := by rw [← sorted, Cell.mem_sort]
    refine ⟨-least.point, fun point => ?_⟩
    simp only [member, ← sub_eq_add_neg]
    exact has_settle built point

theorem exists_settle_iff {least : Cell} {rest : List Cell} : (∃ shape, settle (least :: rest) = .ok shape) ↔
    (least.row.val ≠ -2147483648 ∧ least.col.val ≠ -2147483648) ∧
      ∀ cell ∈ least :: rest, ∃ target : Cell, target.point = cell.point - least.point := by
  simp only [settle_eq_ok]
  constructor
  · intro parts
    obtain ⟨shape, low, placed⟩ := parts
    exact ⟨low, fun cell inside => (Outcome.mem_of_forall₂ placed.flip inside).imp fun _ => And.right⟩
  · intro parts
    obtain ⟨low, shifts⟩ := parts
    choose! target placed using shifts
    refine ⟨⟨(least :: rest).map target⟩, low, ?_⟩
    rw [List.forall₂_map_right_iff, List.forall₂_same]
    exact placed

theorem exists_point_iff {point : ℤ × ℤ} : (∃ target : Cell, target.point = point) ↔
    (-2147483648 ≤ point.1 ∧ point.1 ≤ 2147483647) ∧ -2147483648 ≤ point.2 ∧ point.2 ≤ 2147483647 := by
  constructor
  · intro found
    obtain ⟨target, rfl⟩ := found
    exact ⟨target.row.inRange, target.col.inRange⟩
  · intro fits
    exact ⟨⟨⟨point.1, fits.1⟩, ⟨point.2, fits.2⟩⟩, rfl⟩

/-- Cells have a shape if the first of them in reading order keeps off the least coordinate, and the shift that
takes it to the origin takes no other cell too far. -/
theorem exists_ofCells_iff {cells : List Cell} {least : Cell} (listed : least ∈ cells)
    (first : ∀ cell ∈ cells, ¬ cell < least) : (∃ shape, ofCells cells = .ok shape) ↔
      (least.row.val ≠ -2147483648 ∧ least.col.val ≠ -2147483648) ∧
        ∀ cell ∈ cells, cell.row.val - least.row.val ≤ 2147483647 ∧
          -2147483648 ≤ cell.col.val - least.col.val ∧ cell.col.val - least.col.val ≤ 2147483647 := by
  have head := (Cell.sort_increasing cells).head?_eq (Cell.mem_sort.mpr listed)
    fun cell member => first cell (Cell.mem_sort.mp member)
  obtain ⟨rest, sorted⟩ := List.head?_eq_some_iff.mp head
  rw [ofCells, sorted, exists_settle_iff, ← sorted]
  simp only [Cell.mem_sort, exists_point_iff]
  refine and_congr_right fun _ => forall₂_congr fun cell member => ?_
  have below := first cell member
  rw [Cell.lt_iff] at below
  simp only [Cell.point, Prod.fst_sub, Prod.snd_sub]
  omega

/-- Cells that keep off the least coordinate and lie close enough together have a shape. -/
theorem exists_ofCells {cells : List Cell} (some : cells ≠ [])
    (low : ∀ cell ∈ cells, cell.row.val ≠ -2147483648 ∧ cell.col.val ≠ -2147483648)
    (rows : ∀ a ∈ cells, ∀ b ∈ cells, a.row.val - b.row.val ≤ 2147483647)
    (cols : ∀ a ∈ cells, ∀ b ∈ cells, a.col.val - b.col.val ≤ 2147483647) :
    ∃ shape, ofCells cells = .ok shape := by
  obtain ⟨least, listed, first⟩ := Cell.exists_least some
  refine (exists_ofCells_iff listed first).mpr ⟨low least listed, fun cell member => ?_⟩
  have below := rows cell member least listed
  have right := cols cell member least listed
  have left := cols least listed cell member
  omega

theorem exists_ofCells_of_nonneg {cells : List Cell} (some : cells ≠ [])
    (nonneg : ∀ cell ∈ cells, 0 ≤ cell.row.val ∧ 0 ≤ cell.col.val) : ∃ shape, ofCells cells = .ok shape := by
  refine exists_ofCells some (fun cell member => ?_) (fun a inA b inB => ?_) (fun a inA b inB => ?_)
  · have here := nonneg cell member
    omega
  · have high := a.row.inRange
    have low := nonneg b inB
    omega
  · have high := a.col.inRange
    have low := nonneg b inB
    omega

/-- The first cell of the later part of an increasing list tells which of the two parts may have a cell. -/
theorem mem_append_iff_of_increasing (cell : Cell) {left right : List Cell}
    (increasing : Cell.Increasing (left ++ right)) :
    cell ∈ left ++ right ↔ if right.head?.all (cell < ·) then cell ∈ left else cell ∈ right := by
  obtain ⟨_, ordered, apart⟩ := List.pairwise_append.mp increasing
  rw [List.mem_append]
  cases right with
  | nil => simp
  | cons middle others =>
    by_cases less : cell < middle
    · have outside : cell ∉ middle :: others := by
        intro member
        rcases List.mem_cons.mp member with rfl | further
        · exact Cell.not_lt_self _ less
        · exact Cell.lt_asymm less ((List.pairwise_cons.mp ordered).1 cell further)
      rw [or_iff_left outside]
      simp [less]
    · have outside : cell ∉ left := fun member => less (apart cell member middle List.mem_cons_self)
      rw [or_iff_right outside]
      simp [less]

theorem seek_iff {cell : Cell} {halvings : Nat} {cells : List Cell} (increasing : Cell.Increasing cells)
    (enough : cells.length ≤ 2 ^ halvings) : seek cell halvings cells = true ↔ cell ∈ cells := by
  induction halvings generalizing cells with
  | zero =>
    rw [seek, decide_eq_true_iff]
    rcases cells with _ | ⟨only, _ | ⟨second, rest⟩⟩
    · exact ⟨nofun, nofun⟩
    · rw [List.head?_cons, Option.some.injEq, List.mem_singleton]
      exact eq_comm
    · rw [List.length_cons, List.length_cons] at enough
      omega
  | succ halvings ih =>
    rw [Nat.pow_succ] at enough
    have halves := List.take_append_drop (cells.length / 2) cells
    rw [← halves] at increasing
    obtain ⟨before, after, _⟩ := List.pairwise_append.mp increasing
    have found := mem_append_iff_of_increasing cell increasing
    rw [halves] at found
    rw [found, seek]
    split
    · exact ih before (by rw [List.length_take]; omega)
    · exact ih after (by rw [List.length_drop]; omega)

namespace Normal

variable {shape other : Polyomino}

theorem contains_iff (normal : shape.Normal) {cell : Cell} :
    shape.contains cell = true ↔ cell ∈ shape.cells := seek_iff normal.increasing (Nat.le_of_lt Nat.lt_two_pow_self)

theorem cells_ne_nil (normal : shape.Normal) : shape.cells ≠ [] :=
  List.ne_nil_of_mem (List.mem_of_head? normal.first)

theorem has_origin (normal : shape.Normal) : shape.Has (0, 0) :=
  ⟨.of 0 0, List.mem_of_head? normal.first, rfl⟩

theorem least (normal : shape.Normal) {cell : Cell} (member : cell ∈ shape.cells) :
    0 < cell.row.val ∨ (cell.row.val = 0 ∧ 0 ≤ cell.col.val) := by
  obtain ⟨rest, same⟩ := List.head?_eq_some_iff.mp normal.first
  have increasing := normal.increasing
  rw [same] at increasing member
  have zero : (Cell.of 0 0).row.val = 0 ∧ (Cell.of 0 0).col.val = 0 := ⟨rfl, rfl⟩
  rcases List.mem_cons.mp member with rfl | inRest
  · omega
  · have less := (List.pairwise_cons.mp increasing).1 cell inRest
    rw [Cell.lt_iff] at less
    omega

theorem least_point (normal : shape.Normal) {point : ℤ × ℤ} (has : shape.Has point) :
    0 < point.1 ∨ (point.1 = 0 ∧ 0 ≤ point.2) := by
  obtain ⟨cell, member, rfl⟩ := has
  exact normal.least member

theorem eq_of_shift (normal : shape.Normal) (normal' : other.Normal) {offset : ℤ × ℤ}
    (shifted : ∀ point, other.Has point ↔ shape.Has (point + offset)) : other = shape := by
  have forward := normal.least_point ((shifted (0, 0)).mp normal'.has_origin)
  have origin : shape.Has (-offset + offset) := by
    rw [neg_add_cancel]
    exact normal.has_origin
  have backward := normal'.least_point ((shifted (-offset)).mpr origin)
  have still : offset = (0, 0) := by
    simp only [Prod.fst_add, Prod.snd_add, Prod.fst_neg, Prod.snd_neg] at forward backward
    ext <;> omega
  have same : other.cells = shape.cells := by
    apply normal'.increasing.eq normal.increasing
    intro cell
    have reached := shifted cell.point
    rw [still] at reached
    rw [← has_point_iff, ← has_point_iff, reached]
    exact iff_of_eq (congrArg shape.Has (add_zero cell.point))
  cases shape; cases other
  exact congrArg Polyomino.mk same

end Normal

end Polyomino

end GridPuzzle
