import GridPuzzle.Proofs.Board.Squares

/-!
Boards made of rectangles. The rectangles that are found on a board lie on it, apart from each other, and have
just its shaded cells. No other rectangles do, so those that a shading is made of are the ones that are found.
-/
namespace GridPuzzle

namespace Rectangle

def Has (rectangle : Rectangle) (cell : Cell) : Prop :=
  (rectangle.topLeft.row.val ≤ cell.row.val ∧
    cell.row.val < rectangle.topLeft.row.val + rectangle.height.val) ∧
  rectangle.topLeft.col.val ≤ cell.col.val ∧ cell.col.val < rectangle.topLeft.col.val + rectangle.width.val

/-- The rectangles have no cell in common and no two cells that share a side. -/
def Apart (first second : Rectangle) : Prop :=
  ∀ a b, first.Has a → second.Has b → a ≠ b ∧ ¬ Adjacency.side.Near a b

instance : Std.Symm Apart :=
  ⟨fun _ _ apart a b hasA hasB => ⟨(apart b a hasB hasA).1.symm, fun near => (apart b a hasB hasA).2 near.symm⟩⟩

/-- A rectangle that has two cells has one beside the first that is nearer to the second. -/
theorem Has.exists_nearer {rectangle : Rectangle} {a b : Cell} (hasA : rectangle.Has a) (hasB : rectangle.Has b)
    (differs : a ≠ b) : ∃ next, rectangle.Has next ∧ Adjacency.side.Near a next ∧
      (next.row.val - b.row.val).natAbs + (next.col.val - b.col.val).natAbs <
        (a.row.val - b.row.val).natAbs + (a.col.val - b.col.val).natAbs := by
  have inRow := a.row.inRange
  have inRow' := b.row.inRange
  have inCol := a.col.inRange
  have inCol' := b.col.inRange
  unfold Has at *
  simp only [Adjacency.Near]
  rw [Ne, Cell.ext_iff] at differs
  rcases (by omega : a.row.val < b.row.val ∨ b.row.val < a.row.val ∨ a.col.val < b.col.val ∨ b.col.val < a.col.val)
    with below | above | right | left
  · exact ⟨⟨⟨a.row.val + 1, by omega⟩, a.col⟩, by dsimp only; omega⟩
  · exact ⟨⟨⟨a.row.val - 1, by omega⟩, a.col⟩, by dsimp only; omega⟩
  · exact ⟨⟨a.row, ⟨a.col.val + 1, by omega⟩⟩, by dsimp only; omega⟩
  · exact ⟨⟨a.row, ⟨a.col.val - 1, by omega⟩⟩, by dsimp only; omega⟩

end Rectangle

namespace Board

variable {board : Board} {a b cell : Cell} {group later : List Cell} {groups : List (List Cell)}
  {first second rectangle : Rectangle} {rects others : List Rectangle}

/-- The rectangle has cells, and all of them lie on the board. -/
structure Encloses (board : Board) (rectangle : Rectangle) : Prop where
  tall : 1 ≤ rectangle.height.val
  wide : 1 ≤ rectangle.width.val
  rows : 0 ≤ rectangle.topLeft.row.val ∧ rectangle.topLeft.row.val + rectangle.height.val ≤ board.rows
  cols : 0 ≤ rectangle.topLeft.col.val ∧ rectangle.topLeft.col.val + rectangle.width.val ≤ board.cols

namespace Encloses

theorem has_topLeft (encloses : board.Encloses rectangle) : rectangle.Has rectangle.topLeft := by
  obtain ⟨tall, wide, _, _⟩ := encloses
  unfold Rectangle.Has
  omega

theorem exists_bottomRight (encloses : board.Encloses rectangle) (bounded : board.Bounded) :
    ∃ cell, rectangle.Has cell ∧
      cell.row.val + 1 = rectangle.topLeft.row.val + rectangle.height.val ∧
      cell.col.val + 1 = rectangle.topLeft.col.val + rectangle.width.val := by
  obtain ⟨tall, wide, rows, cols⟩ := encloses
  obtain ⟨tallest, widest⟩ := bounded
  refine ⟨⟨⟨rectangle.topLeft.row.val + rectangle.height.val - 1, by omega⟩,
    ⟨rectangle.topLeft.col.val + rectangle.width.val - 1, by omega⟩⟩, ?_⟩
  unfold Rectangle.Has
  dsimp only
  omega

/-- On a board, a rectangle is known by its cells. -/
theorem eq_of_has (encloses : board.Encloses first) (encloses' : board.Encloses second) (bounded : board.Bounded)
    (same : ∀ cell, first.Has cell ↔ second.Has cell) : first = second := by
  have start := (same _).mp encloses.has_topLeft
  have start' := (same _).mpr encloses'.has_topLeft
  obtain ⟨last, has, rows, cols⟩ := encloses.exists_bottomRight bounded
  obtain ⟨last', has', rows', cols'⟩ := encloses'.exists_bottomRight bounded
  have finish := (same _).mp has
  have finish' := (same _).mpr has'
  unfold Rectangle.Has at *
  have corner : first.topLeft = second.topLeft := Cell.ext (by omega) (by omega)
  have height : first.height = second.height := Coord.ext (by omega)
  have width : first.width = second.width := Coord.ext (by omega)
  cases first
  cases second
  rw [Rectangle.mk.injEq]
  exact ⟨corner, height, width⟩

end Encloses

/-- The rectangles lie on the board, apart from each other, and have just its shaded cells. -/
structure Decomposes (board : Board) (rects : List Rectangle) : Prop where
  encloses : ∀ rectangle ∈ rects, board.Encloses rectangle
  shaded : ∀ cell, board.isShaded cell = true ↔ ∃ rectangle ∈ rects, rectangle.Has cell
  apart : rects.Pairwise Rectangle.Apart

/-- The rectangle has just the cells of the group and starts at the first of them. -/
structure Spans (board : Board) (group : List Cell) (rectangle : Rectangle) : Prop where
  encloses : board.Encloses rectangle
  has : ∀ cell, rectangle.Has cell ↔ cell ∈ group
  first : group.head? = some rectangle.topLeft

theorem Frames.has_iff {box : Plane.Box} (frames : Frames group rectangle box) :
    rectangle.Has cell ↔ cell ∈ group := by
  obtain ⟨_, corner, height, width, plots⟩ := frames
  rw [← plots_cell, plots, Rectangle.Has, Plane.Box.Holds]
  omega

theorem Frames.spans {box : Plane.Box} (frames : Frames group rectangle box) (isGroup : board.IsGroup .side group) :
    board.Spans group rectangle := by
  obtain ⟨corner, height, width⟩ := And.intro frames.corner (And.intro frames.height frames.width)
  obtain ⟨least, _, inGroup⟩ := isGroup.head_mem
  have holds := (frames.plots _ _).mp (plots_cell.mpr inGroup)
  unfold Plane.Box.Holds at holds
  -- the corners of the box are cells of the group, so they lie on the board
  have onBoard {r c : Int} (inside : box.Holds r c) : board.Covers r c := by
    obtain ⟨cell, member, rows, cols⟩ := (frames.plots r c).mpr inside
    exact ⟨cell, isGroup.contains member, rows, cols⟩
  obtain ⟨start, inStart, startRow, startCol⟩ :=
    onBoard (r := box.top) (c := box.left) ⟨⟨by omega, by omega⟩, by omega, by omega⟩
  obtain ⟨last, inLast, lastRow, lastCol⟩ :=
    onBoard (r := box.bottom) (c := box.right) ⟨⟨by omega, by omega⟩, by omega, by omega⟩
  rw [contains_iff] at inStart inLast
  have encloses : board.Encloses rectangle := ⟨by omega, by omega, by omega, by omega⟩
  refine ⟨encloses, fun cell => frames.has_iff, ?_⟩
  refine isGroup.increasing.head?_eq (frames.has_iff.mp encloses.has_topLeft) fun cell member less => ?_
  have inside := frames.has_iff.mpr member
  rw [Cell.lt_iff] at less
  unfold Rectangle.Has at inside
  omega

theorem IsGroup.spans_of_filled (isGroup : board.IsGroup .side group)
    (small : board.rows * board.cols ≤ 2147483647) (found : filled? group = .ok (some rectangle)) :
    board.Spans group rectangle := by
  obtain ⟨looked, same, fills_iff⟩ :=
    filled?_ok small isGroup.increasing isGroup.inhabited fun cell => isGroup.contains
  have isFound := Except.ok.inj (found.symm.trans same)
  have fills := fills_iff.mp (Option.isSome_iff_exists.mpr ⟨rectangle, isFound.symm⟩)
  obtain ⟨_, _, frames⟩ := exists_frames (bounded_of_area small) isGroup fills
  cases frames.boxed.symm.trans (filled?_eq_some found)
  exact frames.spans isGroup

theorem forall₂_of_filledAll? (found : filledAll? groups = .ok (some rects)) :
    List.Forall₂ (fun group rectangle => filled? group = .ok (some rectangle)) groups rects := by
  induction groups generalizing rects with
  | nil =>
    cases found
    exact .nil
  | cons group rest ih =>
    obtain ⟨here, looked, after⟩ := Outcome.bind_eq_ok.mp found
    cases here with
    | none => cases after
    | some rectangle =>
      obtain ⟨others, foundRest, same⟩ := Outcome.bind_eq_ok.mp after
      obtain ⟨tail, rfl, rfl⟩ := Option.map_eq_some_iff.mp (Outcome.pure_eq_ok.mp same)
      exact .cons looked (ih foundRest)

theorem Spans.apart (spans : board.Spans group first) (spans' : board.Spans later second)
    (isGroup : board.IsGroup .side group) (isLater : board.IsGroup .side later)
    (disjoint : List.Disjoint group later) : first.Apart second := by
  intro a b hasA hasB
  rw [spans.has] at hasA
  rw [spans'.has] at hasB
  refine ⟨fun same => disjoint hasA (same ▸ hasB), fun near => disjoint ((isGroup.joined a hasA b).mpr ?_) hasB⟩
  exact .single (linked_side.mpr ⟨isGroup.shaded a hasA, isLater.shaded b hasB, near⟩)

theorem decomposes_of_rectangles (small : board.rows * board.cols ≤ 2147483647)
    (found : board.rectangles = .ok (some rects)) :
    board.Decomposes rects ∧ rects.Pairwise fun first second => first.topLeft < second.topLeft := by
  obtain ⟨groups, grouped, filled⟩ := Outcome.bind_eq_ok.mp found
  obtain ⟨classes, covered⟩ := IsGroup.of_components Adjacency.fixed_side grouped
  have each := forall₂_of_filledAll? filled
  have spanned : ∀ rectangle ∈ rects, ∃ group ∈ groups, board.Spans group rectangle := by
    intro rectangle member
    obtain ⟨group, inGroups, looked⟩ := Outcome.mem_of_forall₂ each member
    exact ⟨group, inGroups, (classes group inGroups).spans_of_filled small looked⟩
  have ordered : rects.Pairwise fun first second => first.Apart second ∧ first.topLeft < second.topLeft := by
    refine Outcome.pairwise_of_forall₂ each ?_
      ((components_disjoint Adjacency.fixed_side grouped).and (components_ordered Adjacency.fixed_side grouped))
    intro group inGroups later inLater first second looked looked' both
    have isGroup := classes group inGroups
    have isLater := classes later inLater
    have spans := isGroup.spans_of_filled small looked
    have spans' := isLater.spans_of_filled small looked'
    exact ⟨spans.apart spans' isGroup isLater both.1,
      both.2 _ spans.first _ ((spans'.has _).mp spans'.encloses.has_topLeft)⟩
  refine ⟨⟨fun rectangle member => ?_, fun cell => ⟨fun shaded => ?_, fun has => ?_⟩, ordered.imp And.left⟩,
    ordered.imp And.right⟩
  · obtain ⟨_, _, spans⟩ := spanned rectangle member
    exact spans.encloses
  · obtain ⟨group, inGroups, inside⟩ := covered cell shaded
    obtain ⟨rectangle, member, looked⟩ := Outcome.mem_of_forall₂ each.flip inGroups
    exact ⟨rectangle, member, (((classes group inGroups).spans_of_filled small looked).has cell).mpr inside⟩
  · obtain ⟨rectangle, member, inside⟩ := has
    obtain ⟨group, inGroups, spans⟩ := spanned rectangle member
    exact (classes group inGroups).shaded cell ((spans.has cell).mp inside)

namespace Decomposes

variable (decomposes : board.Decomposes rects)
include decomposes

theorem has_of_linked (member : rectangle ∈ rects) (has : rectangle.Has a) (linked : board.Linked .side a b) :
    rectangle.Has b := by
  obtain ⟨_, shaded, near⟩ := linked_side.mp linked
  obtain ⟨other, inOthers, hasB⟩ := (decomposes.shaded b).mp shaded
  by_cases same : rectangle = other
  · exact same ▸ hasB
  · have apart := decomposes.apart.forall member inOthers same
    exact absurd near (apart a b has hasB).2

theorem joined_of_has (member : rectangle ∈ rects) (hasA : rectangle.Has a) (hasB : rectangle.Has b) :
    board.Joined .side a b := by
  -- by induction on the distance that is left
  induction steps : (a.row.val - b.row.val).natAbs + (a.col.val - b.col.val).natAbs using Nat.strong_induction_on
    generalizing a with
  | _ distance ih =>
    by_cases same : a = b
    · exact same ▸ .refl
    · obtain ⟨next, hasNext, near, nearer⟩ := hasA.exists_nearer hasB same
      have shaded {cell : Cell} (has : rectangle.Has cell) : board.isShaded cell = true :=
        (decomposes.shaded cell).mpr ⟨rectangle, member, has⟩
      exact .head (linked_side.mpr ⟨shaded hasA, shaded hasNext, near⟩) (ih _ (steps ▸ nearer) hasNext rfl)

/-- The cells of a rectangle are one group. -/
theorem joined_iff (member : rectangle ∈ rects) (has : rectangle.Has a) :
    board.Joined .side a b ↔ rectangle.Has b := by
  refine ⟨fun joined => ?_, decomposes.joined_of_has member has⟩
  induction joined with
  | refl => exact has
  | tail _ linked ih => exact decomposes.has_of_linked member ih linked

theorem fills (isGroup : board.IsGroup .side group) : Fills group := by
  obtain ⟨least, _, inGroup⟩ := isGroup.head_mem
  obtain ⟨rectangle, member, has⟩ := (decomposes.shaded least).mp (isGroup.shaded least inGroup)
  have has_iff {cell : Cell} : cell ∈ group ↔ rectangle.Has cell :=
    (isGroup.joined least inGroup cell).trans (decomposes.joined_iff member has)
  intro top inTop bottom inBottom left inLeft right inRight row col inRow inCol
  rw [has_iff] at inTop inBottom inLeft inRight
  unfold Plane.Between at inRow inCol
  have rows := top.row.inRange
  have rows' := bottom.row.inRange
  have cols := left.col.inRange
  have cols' := right.col.inRange
  refine ⟨⟨⟨row, by omega⟩, ⟨col, by omega⟩⟩, has_iff.mpr ?_, rfl, rfl⟩
  unfold Rectangle.Has at *
  dsimp only
  omega

theorem mem_of_decomposes (bounded : board.Bounded) (decomposes' : board.Decomposes others)
    (member : rectangle ∈ rects) : rectangle ∈ others := by
  have encloses := decomposes.encloses rectangle member
  have has := encloses.has_topLeft
  obtain ⟨other, member', has'⟩ :=
    (decomposes'.shaded _).mp ((decomposes.shaded _).mpr ⟨rectangle, member, has⟩)
  have same : rectangle = other := by
    refine encloses.eq_of_has (decomposes'.encloses other member') bounded fun cell => ?_
    rw [← decomposes.joined_iff member has, decomposes'.joined_iff member' has']
  exact same ▸ member'

theorem nodup : rects.Nodup := by
  refine decomposes.apart.imp_of_mem fun {first second} member _ apart same => ?_
  have has := (decomposes.encloses first member).has_topLeft
  exact (apart _ _ has (same ▸ has)).1 rfl

theorem strict (ordered : rects.Pairwise fun first second => ¬ second.topLeft < first.topLeft) :
    rects.Pairwise fun first second => first.topLeft < second.topLeft := by
  refine (decomposes.apart.and ordered).imp_of_mem fun {first second} member member' both => ?_
  have differs := (both.1 _ _ (decomposes.encloses first member).has_topLeft
    (decomposes.encloses second member').has_topLeft).1
  exact (Cell.lt_or_gt differs).resolve_right both.2

/-- Sorted by their first cells, two decompositions of a board are the same list. -/
theorem eq (bounded : board.Bounded) (decomposes' : board.Decomposes others)
    (ordered : rects.Pairwise fun first second => ¬ second.topLeft < first.topLeft)
    (ordered' : others.Pairwise fun first second => ¬ second.topLeft < first.topLeft) : rects = others := by
  have permuted : rects.Perm others := (List.perm_ext_iff_of_nodup decomposes.nodup decomposes'.nodup).mpr
    fun _ => ⟨decomposes.mem_of_decomposes bounded decomposes', decomposes'.mem_of_decomposes bounded decomposes⟩
  refine permuted.eq_of_pairwise ?_ (decomposes.strict ordered) (decomposes'.strict ordered')
  intro first second _ _ less greater
  exact absurd greater (Cell.lt_asymm less)

end Decomposes

/-- On a board with no more cells than there are positive coordinates, the rectangles are found. If there are any,
they decompose the board, in the order of their first cells. If the board is decomposed by rectangles in this order,
these are found. -/
theorem rectangles_decompose (small : board.rows * board.cols ≤ 2147483647) :
    ∃ found, board.rectangles = .ok found ∧
      (∀ rects, found = some rects → board.Decomposes rects ∧
        rects.Pairwise fun first second => first.topLeft < second.topLeft) ∧
      ∀ rects, board.Decomposes rects → (rects.Pairwise fun first second => ¬ second.topLeft < first.topLeft) →
        found = some rects := by
  obtain ⟨groups, grouped, each, _⟩ := groups_ok small
  obtain ⟨found, searched, found_iff⟩ := rectangles_ok grouped fun group member => (each group member).2.2
  obtain ⟨classes, _⟩ := IsGroup.of_components Adjacency.fixed_side grouped
  refine ⟨found, searched, fun rects same => decomposes_of_rectangles small (same ▸ searched),
    fun rects decomposes ordered => ?_⟩
  obtain ⟨own, rfl⟩ :=
    Option.isSome_iff_exists.mp (found_iff.mpr fun group member => decomposes.fills (classes group member))
  obtain ⟨decomposes', ordered'⟩ := decomposes_of_rectangles small searched
  exact congrArg some (decomposes'.eq (bounded_of_area small) decomposes (ordered'.imp Cell.lt_asymm) ordered)

/-- A square and a column of three, where a row lies between them. -/
def stripedBoard : Board := .ofShading 3 4 (by decide) fun row col => col = 3 ∨ row < 2 ∧ col < 2

theorem rectangles_decompose_striped : stripedBoard.rows * stripedBoard.cols ≤ 2147483647 ∧
    stripedBoard.rectangles = .ok (some [⟨.of 0 0, .of 2, .of 2⟩, ⟨.of 0 3, .of 3, .of 1⟩]) ∧
    stripedBoard.Decomposes [⟨.of 0 0, .of 2, .of 2⟩, ⟨.of 0 3, .of 3, .of 1⟩] ∧
    ¬ stripedBoard.Decomposes [⟨.of 0 3, .of 3, .of 1⟩] := by
  have small : stripedBoard.rows * stripedBoard.cols ≤ 2147483647 := by decide
  have both : stripedBoard.rectangles = .ok (some [⟨.of 0 0, .of 2, .of 2⟩, ⟨.of 0 3, .of 3, .of 1⟩]) := by
    decide +kernel
  obtain ⟨found, searched, decomposed, only⟩ := rectangles_decompose small
  cases searched.symm.trans both
  refine ⟨small, both, (decomposed _ rfl).1, fun decomposes => ?_⟩
  have fewer := only _ decomposes (List.pairwise_singleton _ _)
  exact absurd fewer (by decide)

end Board

end GridPuzzle
