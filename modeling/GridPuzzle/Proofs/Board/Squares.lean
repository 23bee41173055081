import GridPuzzle.Proofs.Board.Classes
import GridPuzzle.Proofs.Board.Regions
import GridPuzzle.Proofs.Plane.Extent

/-!
Groups as squares. Where all groups of a board fill their boxes, these boxes are the ones that walls enclose,
so that the next walls behind their first cells tell how high and how wide they are.
-/
namespace GridPuzzle.Board

variable {board : Board} {kind : Adjacency} {sheet : Plane.Sheet} {cells group : List Cell}
  {groups : List (List Cell)} {rectangle : Rectangle} {box : Plane.Box}

/-- The box of the plane that the cells fill, and the rectangle that is found around them. -/
structure Frames (cells : List Cell) (rectangle : Rectangle) (box : Plane.Box) : Prop where
  boxed : box? cells = .ok (some rectangle)
  corner : rectangle.topLeft.row.val = box.top ∧ rectangle.topLeft.col.val = box.left
  height : rectangle.height.val = box.bottom - box.top + 1
  width : rectangle.width.val = box.right - box.left + 1
  plots : ∀ r c, Plots cells r c ↔ box.Holds r c

theorem exists_frames (bounded : board.Bounded) (isGroup : board.IsGroup kind group) (fills : Fills group) :
    ∃ rectangle box, Frames group rectangle box := by
  obtain ⟨top, inTop, bottom, inBottom, left, inLeft, right, inRight, rectangle, boxed, corner, height, width,
    within⟩ := box?_ok bounded isGroup.inhabited fun cell => isGroup.contains
  refine ⟨rectangle, ⟨top.row.val, bottom.row.val, left.col.val, right.col.val⟩, boxed, ?_, height, width, ?_⟩
  · rw [corner]
    exact ⟨rfl, rfl⟩
  intro r c
  constructor
  · intro plots
    obtain ⟨cell, inside, rfl, rfl⟩ := plots
    exact within cell inside
  · intro inside
    exact fills top inTop bottom inBottom left inLeft right inRight r c (.inl inside.1) (.inl inside.2)

/-- The ways of a sheet are the links between the cells of a board. -/
structure Mirrors (sheet : Plane.Sheet) (board : Board) (kind : Adjacency) : Prop where
  grid : ∀ r c, sheet.grid r c ↔ board.Shades r c
  opens : ∀ a b : Cell, sheet.Opens a.row.val a.col.val b.row.val b.col.val ↔ board.Linked kind a b
  bordered : sheet.Bordered

theorem mirrors_shaded (board : Board) : Mirrors (.ofShaded board.Shades) board .side where
  grid _ _ := Iff.rfl
  opens a b := by
    rw [Plane.Sheet.opens_ofShaded, linked_side, shades_cell, shades_cell, and_assoc]
    rfl
  bordered := Plane.Sheet.bordered_ofShaded _

theorem mirrors_walled (board : Board) : Mirrors board.sheet board.full .walled where
  grid _ _ := shades_full.symm
  opens _ _ := opens_iff
  bordered := board.sheet_fenced.bordered

/-- One of the groups fills the box. -/
def Tiles (groups : List (List Cell)) (box : Plane.Box) : Prop :=
  ∃ group ∈ groups, ∃ rectangle, Frames group rectangle box

/-- Cells of the group that lie beside each other are linked. -/
def Meshed (board : Board) (kind : Adjacency) (group : List Cell) : Prop :=
  ∀ a ∈ group, ∀ b ∈ group, Adjacency.side.Near a b → board.Linked kind a b

theorem IsGroup.meshed (isGroup : board.IsGroup .side group) : board.Meshed .side group :=
  fun a inA b inB near => linked_side.mpr ⟨isGroup.shaded a inA, isGroup.shaded b inB, near⟩

theorem IsGroup.meshed_of_whole (isGroup : board.full.IsGroup .walled group) (whole : ¬ board.Parted group) :
    board.full.Meshed .walled group := by
  intro a inA b inB near
  refine linked_full.mpr ⟨⟨isGroup.contains inA, isGroup.contains inB⟩, near, Bool.eq_false_iff.mpr ?_⟩
  exact fun walled => whole ⟨a, inA, b, inB, near, walled⟩

theorem Mirrors.closed (mirrors : Mirrors sheet board kind) (isGroup : board.IsGroup kind group)
    (meshed : board.Meshed kind group) (frames : Frames group rectangle box) : sheet.Closed box := by
  obtain ⟨first, rest, same⟩ := List.exists_cons_of_ne_nil isGroup.inhabited
  have nonempty := (frames.plots _ _).mp (plots_cell.mpr (same ▸ List.mem_cons_self : first ∈ group))
  have tall := nonempty.1
  have wide := nonempty.2
  refine ⟨by omega, by omega, fun {r c} inside => ?_, fun {r c r' c'} inside opens => ?_,
    fun {r c r' c'} inside inside' near => ?_⟩
  · obtain ⟨cell, member, rfl, rfl⟩ := (frames.plots r c).mpr inside
    exact (mirrors.grid _ _).mpr (shades_cell.mpr (isGroup.shaded cell member))
  · obtain ⟨a, inA, rfl, rfl⟩ := (frames.plots r c).mpr inside
    obtain ⟨b, _, rfl, rfl⟩ := (mirrors.grid r' c').mp opens.1.2
    refine (frames.plots _ _).mp (plots_cell.mpr ((isGroup.joined a inA b).mpr ?_))
    exact .single ((mirrors.opens a b).mp opens)
  · obtain ⟨a, inA, rfl, rfl⟩ := (frames.plots r c).mpr inside
    obtain ⟨b, inB, rfl, rfl⟩ := (frames.plots r' c').mpr inside'
    exact (mirrors.opens a b).mpr (meshed a inA b inB near)

theorem Mirrors.tiled (mirrors : Mirrors sheet board kind) (fixed : kind.Fixed) (bounded : board.Bounded)
    (grouped : board.components kind = .ok groups)
    (whole : ∀ group ∈ groups, Fills group ∧ board.Meshed kind group) : sheet.Tiled (Tiles groups) := by
  obtain ⟨classes, covered⟩ := IsGroup.of_components fixed grouped
  constructor
  · intro box tile
    obtain ⟨group, member, rectangle, frames⟩ := tile
    exact (mirrors.closed (classes group member) (whole group member).2 frames).encloses mirrors.bordered
  · intro r c here
    obtain ⟨cell, shaded, rfl, rfl⟩ := (mirrors.grid r c).mp here
    obtain ⟨group, member, inside⟩ := covered cell shaded
    obtain ⟨rectangle, box, frames⟩ := exists_frames bounded (classes group member) (whole group member).1
    exact ⟨box, ⟨group, member, rectangle, frames⟩, (frames.plots _ _).mp (plots_cell.mpr inside)⟩

/-- The box around the cells is not as high as it is wide. -/
def Oblong (cells : List Cell) : Prop :=
  ∃ rectangle, box? cells = .ok (some rectangle) ∧ rectangle.height.val ≠ rectangle.width.val

theorem uneven_iff (tiled : sheet.Tiled (Tiles groups))
    (framed : ∀ group ∈ groups, ∃ rectangle box, Frames group rectangle box) :
    sheet.Uneven ↔ ∃ group ∈ groups, Oblong group := by
  rw [tiled.uneven_iff]
  constructor
  · intro uneven
    obtain ⟨box, ⟨group, member, rectangle, frames⟩, unequal⟩ := uneven
    have height := frames.height
    have width := frames.width
    exact ⟨group, member, rectangle, frames.boxed, by omega⟩
  · intro oblong
    obtain ⟨group, member, rectangle, boxed, unequal⟩ := oblong
    obtain ⟨found, box, frames⟩ := framed group member
    cases boxed.symm.trans frames.boxed
    have height := frames.height
    have width := frames.width
    exact ⟨box, ⟨group, member, rectangle, frames⟩, by omega⟩

theorem filled?_eq_some {rectangle : Rectangle} (found : filled? cells = .ok (some rectangle)) :
    box? cells = .ok (some rectangle) := by
  obtain ⟨boxed, looked, rest⟩ := Outcome.bind_eq_ok.mp found
  cases boxed with
  | none => cases rest
  | some box =>
    obtain ⟨area, _, same⟩ := Outcome.bind_eq_ok.mp rest
    split at same <;> cases same
    exact looked

theorem filledAll?_of_each (each : ∀ group ∈ groups, ∃ rectangle, filled? group = .ok (some rectangle)) :
    ∃ found, filledAll? groups = .ok (some found) ∧
      ∀ rectangle, rectangle ∈ found ↔ ∃ group ∈ groups, filled? group = .ok (some rectangle) := by
  induction groups with
  | nil => exact ⟨[], rfl, by simp⟩
  | cons group rest ih =>
    obtain ⟨rectangle, here⟩ := each group List.mem_cons_self
    obtain ⟨found, there, listed⟩ := ih fun other member => each other (List.mem_cons_of_mem _ member)
    refine ⟨rectangle :: found, ?_, fun other => ?_⟩
    · rw [filledAll?, Outcome.bind_of_ok here]
      exact Outcome.bind_of_ok there _
    · rw [List.mem_cons, listed, List.exists_mem_cons_iff, here, Except.ok.injEq, Option.some.injEq, eq_comm]

theorem isSquare_iff : rectangle.isSquare = true ↔ rectangle.height.val = rectangle.width.val := by
  rw [Rectangle.isSquare, decide_eq_true_iff]
  exact ⟨congrArg Coord.val, Coord.ext⟩

/-- Whether all groups are squares is found, and they are if they fill their boxes and none is oblong. -/
theorem allSquares_ok (small : board.rows * board.cols ≤ 2147483647) :
    ∃ groups answer, board.components .side = .ok groups ∧ board.allRectangles true = .ok answer ∧
      ((∀ group ∈ groups, Fills group) ↔ Plane.Bendless board.Shades) ∧
      (answer = true ↔ (∀ group ∈ groups, Fills group) ∧ ∀ group ∈ groups, ¬ Oblong group) := by
  obtain ⟨groups, grouped, classes, covered⟩ := groups_ok small
  obtain ⟨found, rectangles, exact⟩ := rectangles_ok grouped fun group member => (classes group member).2.2
  have bendless_iff := fills_all_iff (fun group member => (classes group member).2.1) covered
  cases found with
  | none =>
    refine ⟨groups, false, grouped, Outcome.bind_of_ok rectangles _, bendless_iff, ?_⟩
    exact ⟨fun no => Bool.noConfusion no, fun both => exact.mpr both.1⟩
  | some found =>
    have fills := exact.mp rfl
    have each : ∀ group ∈ groups, ∃ rectangle, filled? group = .ok (some rectangle) := by
      intro group member
      obtain ⟨own, looked, isFilled⟩ := (classes group member).2.2
      obtain ⟨rectangle, rfl⟩ := Option.isSome_iff_exists.mp (isFilled.mpr (fills group member))
      exact ⟨rectangle, looked⟩
    obtain ⟨others, all, listed⟩ := filledAll?_of_each each
    have same : found = others :=
      Option.some.inj (Except.ok.inj (rectangles.symm.trans ((Outcome.bind_of_ok grouped _).trans all)))
    refine ⟨groups, found.all Rectangle.isSquare, grouped, Outcome.bind_of_ok rectangles _, bendless_iff, ?_⟩
    rw [and_iff_right fills, List.all_eq_true]
    constructor
    · intro squares group member oblong
      obtain ⟨rectangle, boxed, unequal⟩ := oblong
      obtain ⟨own, looked⟩ := each group member
      cases boxed.symm.trans (filled?_eq_some looked)
      exact unequal (isSquare_iff.mp (squares _ (same ▸ (listed _).mpr ⟨group, member, looked⟩)))
    · intro square rectangle member
      obtain ⟨group, inGroups, looked⟩ := (listed rectangle).mp (same ▸ member)
      by_contra unequal
      exact square group inGroups ⟨rectangle, filled?_eq_some looked, fun equal => unequal (isSquare_iff.mpr equal)⟩

end GridPuzzle.Board
