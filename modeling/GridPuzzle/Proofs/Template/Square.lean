import GridPuzzle.Proofs.Board.Squares
import GridPuzzle.Proofs.Rules.Compose
import GridPuzzle.Proofs.Rules.Extremum
import GridPuzzle.Proofs.Rules.Line
import GridPuzzle.Proofs.Template.Region

/-!
Squares. From the cell that opens a group, the least number at which the color or the region has ended in its
row and in its column tells how far the group reaches, so that the rules reject just the groups that are no
squares. The further rules about the first steps from that cell reject no others.
-/
namespace GridPuzzle

open Plane (FirstAfter)

namespace Runs

variable {world : World} {binding : Binding} {outer : List String} {candidate relation target : String}
  {start : Term} {place : Term → Place} {first : Int} {row col : Int → Int}
  (runs : Runs binding outer candidate start place first row col)
include runs

theorem firstWall_holds (cells : ∀ fact, world fact → fact.relation = relation → ∃ r c, fact = .cell relation r c)
    {last : Int} (bound : binding target = .num last) :
    (Template.firstWall target candidate relation start place).Holds world outer binding ↔
      FirstAfter (fun number => world (.cell relation (row number) (col number))) first last := by
  have later : ∀ inner : Binding, (∀ name ∈ outer, inner name = binding name) → ∀ number,
      inner candidate = .num number → ((∀ test ∈ [Test.compare .gt (.term (.var candidate 0)) (.term start)],
        test.Holds world inner) ↔ first < number) := by
    intro inner agree number bound
    rw [List.forall_mem_singleton]
    exact runs.compare_holds agree bound .gt
  rw [Template.firstWall, Literal.Holds, List.map_singleton, bound]
  refine Extremum.attains_num .least (fun tuple => ?_) last
  simp only [List.mem_singleton, exists_eq_left, Set.mem_ofPred_eq]
  refine (runs.yields cells later 0 tuple).trans (exists_congr fun number => ?_)
  rw [Int.add_zero, @and_comm (first < number)]

/-- Where a line leaves the grid, a group ends at the latest. -/
theorem firstEnd_holds {board : Board} {color : Color} (shows : world.Shows board (some color)) (length : Int)
    (covers : ∀ number, board.Covers (row number) (col number) ↔ 0 ≤ number ∧ number < length)
    (here : board.Covers (row first) (col first)) {last : Int} (bound : binding target = .num last) :
    (Template.firstEnd target candidate start place color).Holds world outer binding ↔
      FirstAfter (fun number => ¬ (board.colored color).Shades (row number) (col number)) first last := by
  have cells (fact : Fact) (holds : world fact) (same : fact.relation = Relation.grid) :
      ∃ r c, fact = .cell Relation.grid r c := by
    obtain ⟨cell, _, rfl⟩ := (shows.grid fact same).mp holds
    exact ⟨_, _, rfl⟩
  have unmatched : ∀ inner : Binding, (∀ name ∈ outer, inner name = binding name) → ∀ number,
      inner candidate = .num number → ((∀ test ∈ [color.off (place (.var candidate 0)),
        Test.compare .gt (.term (.var candidate 0)) (.term start)], test.Holds world inner) ↔
        ¬ color.Matches world (row number) (col number) ∧ first < number) := by
    intro inner agree number bound
    rw [List.forall_mem_cons, List.forall_mem_singleton, runs.compare_holds agree bound]
    exact and_congr_left fun _ => holds_off color
      (runs.stands inner agree 0 number (bound ▸ Term.stands_var candidate))
  have leaves : ∀ inner : Binding, (∀ name ∈ outer, inner name = binding name) → ∀ number,
      inner candidate = .num number → ((∀ test ∈ [offGrid (place (.var candidate 1))],
        test.Holds world inner) ↔ ¬ board.Covers (row (number + 1)) (col (number + 1))) := by
    intro inner agree number bound
    rw [List.forall_mem_singleton]
    exact (fails_cell (runs.stands inner agree 1 (number + 1) (Term.stands_var_add bound 1))).trans
      (not_congr shows.grid_cell)
  have inGrid := (covers first).mp here
  have ranks (tuple : List Value) : (∃ element ∈ [⟨[.term (.var candidate 0)], [onGrid (place (.var candidate 0)),
        color.off (place (.var candidate 0)), .compare .gt (.term (.var candidate 0)) (.term start)]⟩,
      ⟨[.term (.var candidate 1)], [onGrid (place (.var candidate 0)), offGrid (place (.var candidate 1))]⟩],
        Element.Yields world outer binding element tuple) ↔
      ∃ number ∈ {number | (board.Covers (row number) (col number) ∧
        ¬ color.Matches world (row number) (col number) ∧ first < number) ∨ number = length},
        tuple = [.num number] := by
    simp only [List.exists_mem_cons_iff, List.not_mem_nil, false_and, exists_false, or_false,
      Set.mem_ofPred_eq, or_and_right, exists_or, exists_eq_left]
    refine or_congr ((runs.yields cells unmatched 0 tuple).trans (exists_congr fun number => ?_))
      ((runs.yields cells leaves 1 tuple).trans ?_)
    · rw [Int.add_zero, shows.grid_cell]
    · simp only [shows.grid_cell, covers]
      constructor
      · intro found
        obtain ⟨number, bounds, rfl⟩ := found
        rw [show number + 1 = length by omega]
      · intro same
        subst same
        exact ⟨length - 1, by omega, by rw [Int.sub_add_cancel]⟩
  rw [Template.firstEnd, Literal.Holds, List.map_singleton, bound]
  refine (Extremum.attains_num .least ranks last).trans (Plane.isLeast_iff_firstAfter ?_ ?_)
  · intro number member
    rw [shows.shades_colored, covers]
    rcases member with ⟨_, off, later⟩ | rfl
    · exact ⟨later, fun both => off both.2⟩
    · exact ⟨inGrid.2, fun both => by omega⟩
  · intro number later unshaded
    rw [shows.shades_colored] at unshaded
    by_cases inside : board.Covers (row number) (col number)
    · exact ⟨number, .inl ⟨inside, fun matched => unshaded ⟨inside, matched⟩, later⟩, Int.le_refl _⟩
    · rw [covers] at inside
      exact ⟨length, .inr rfl, by omega⟩

end Runs

namespace Template

variable {board : Board} {color : Color} {rows cols : Coord} {outerWalls : Program} {given world : World}
  {binding : Binding} {outer : List String} {row col : Int}

theorem unequalExtents_holds (here : Place.Here binding row col) : unequalExtents.Holds world outer binding ↔
    ∃ m n, binding "MR" = .num m ∧ binding "MC" = .num n ∧ m - row ≠ n - col := by
  have rows (number : Int) : Place.here.row.Denotes binding (.num number) ↔ number = row := by
    rw [here.stands.1, Value.num.injEq]
  have cols (number : Int) : Place.here.col.Denotes binding (.num number) ↔ number = col := by
    rw [here.stands.2, Value.num.injEq]
  constructor
  · intro unequal
    obtain ⟨_, _, ⟨m, r, isLast, isRow, rfl⟩, ⟨n, c, isLast', isCol, rfl⟩, apart⟩ := unequal
    obtain rfl := (rows r).mp isRow
    obtain rfl := (cols c).mp isCol
    exact ⟨m, n, isLast.symm, isLast'.symm, fun same => apart (congrArg Value.num same)⟩
  · intro found
    obtain ⟨m, n, isLast, isLast', unequal⟩ := found
    refine ⟨_, _, ⟨m, row, isLast.symm, (rows row).mpr rfl, rfl⟩, ⟨n, col, isLast'.symm, (cols col).mpr rfl, rfl⟩, ?_⟩
    exact fun same => unequal (Value.num.inj same)

theorem exists_extents (row col m n : Int) : ∃ binding : Binding,
    Place.Here binding row col ∧ binding "MR" = .num m ∧ binding "MC" = .num n :=
  ⟨fun name => if name = "R" then .num row else if name = "C" then .num col
    else if name = "MR" then .num m else .num n, ⟨rfl, rfl⟩, rfl, rfl⟩

/-- Literals that find an opening of a sheet and the next walls below and beside it break where the box there
is no square. -/
theorem breaks_uneven {sheet : Plane.Sheet} {opening : List Literal} {down across : Literal} (scope : List String)
    (whole : (opening ++ [down, across, unequalExtents]).flatMap Literal.outer = scope)
    (opens : ∀ outer binding, (∀ literal ∈ opening, literal.Holds world outer binding) ↔
      ∃ row col, Place.Here binding row col ∧ sheet.Opening row col)
    (downs : ∀ binding row col m, Place.Here binding row col → sheet.Opening row col → binding "MR" = .num m →
      (down.Holds world scope binding ↔ FirstAfter (fun r => sheet.top r col) row m))
    (acrosses : ∀ binding row col n, Place.Here binding row col → sheet.Opening row col → binding "MC" = .num n →
      (across.Holds world scope binding ↔ FirstAfter (sheet.left row) col n)) :
    Program.Breaks world (opening ++ [down, across, unequalExtents]) ↔ sheet.Uneven := by
  rw [Program.Breaks, whole]
  constructor
  · intro broken
    obtain ⟨binding, met⟩ := broken
    simp only [List.forall_mem_append, List.forall_mem_cons, List.not_mem_nil, false_imp_iff, implies_true,
      and_true] at met
    obtain ⟨opened, downHolds, acrossHolds, unequalHolds⟩ := met
    obtain ⟨row, col, here, isOpening⟩ := (opens _ binding).mp opened
    obtain ⟨m, n, isLast, isLast', unequal⟩ := (unequalExtents_holds here).mp unequalHolds
    exact ⟨row, col, m, n, isOpening, (downs binding row col m here isOpening isLast).mp downHolds,
      (acrosses binding row col n here isOpening isLast').mp acrossHolds, unequal⟩
  · intro uneven
    obtain ⟨row, col, m, n, isOpening, downFirst, acrossFirst, unequal⟩ := uneven
    obtain ⟨binding, here, isLast, isLast'⟩ := exists_extents row col m n
    refine ⟨binding, ?_⟩
    simp only [List.forall_mem_append, List.forall_mem_cons, List.not_mem_nil, false_imp_iff, implies_true,
      and_true]
    exact ⟨(opens _ binding).mpr ⟨row, col, here, isOpening⟩,
      (downs binding row col m here isOpening isLast).mpr downFirst,
      (acrosses binding row col n here isOpening isLast').mpr acrossFirst,
      (unequalExtents_holds here).mpr ⟨m, n, isLast, isLast', unequal⟩⟩

theorem rectangles_square : rectangles color true = rectangles color false ++ ⟨squareGroups color⟩ := by
  simp only [rectangles, if_true, if_false, Bool.false_eq_true, List.append_nil]
  rfl

/-- From a corner it is not as far to the end of the color below as to the one beside. -/
def extentBody (color : Color) : List Literal :=
  [.test (onGrid .here), .holds (.cell (Roles.label color "upleft") .here)] ++
    [firstEnd "MR" "R1" Place.here.row (⟨·, Place.here.col⟩) color,
      firstEnd "MC" "C1" Place.here.col (⟨Place.here.row, ·⟩) color, unequalExtents]

/-- A step from a corner leads to the first role, and another one does not lead to the second. -/
def stepBody (color : Color) (first second : String) (toward off : Cell) : List Literal :=
  [.holds (.cell (Roles.label color "upleft") .here),
    .holds (.cell (Roles.label color first) (Place.here.step toward)),
    .fails (.cell (Roles.label color second) (Place.here.step off))]

theorem squareGroups_violated : (⟨squareGroups color⟩ : Program).Violated world ↔
    Program.Breaks world (extentBody color) ∨
      Program.Breaks world (stepBody color "left" "up" (.of 1 0) (.of 0 1)) ∨
      Program.Breaks world (stepBody color "up" "left" (.of 0 1) (.of 1 0)) := by
  have bodies : squareGroups color = [extentBody color, stepBody color "left" "up" (.of 1 0) (.of 0 1),
    stepBody color "up" "left" (.of 0 1) (.of 1 0)].map .constraint := rfl
  rw [bodies, Program.violated_constraints]
  simp only [List.exists_mem_cons_iff, List.not_mem_nil, false_and, exists_false, or_false]

section Rectangles

variable (model : (rectangles color false).Model (shadingFacts board color) world)
  (shows : world.Shows board (some color))
include model shows

theorem rectangles_cells (fact : Fact) (holds : world fact) : ∃ r c, fact = .cell fact.relation r c := by
  rcases (model.iff_supported fact).mp holds with (⟨cell, _, rfl⟩ | ⟨cell, _, rfl⟩) | ⟨_, statement, _⟩ |
    ⟨head, body, statement, binding, denoted, met⟩
  · exact ⟨_, _, rfl⟩
  · exact ⟨_, _, rfl⟩
  · simp [rectangles, colorRoles] at statement
  · have asked : (∃ relation, head = .cell relation .here) ∧ .test (onGrid .here) ∈ body := by
      rcases rule_mem_rectangles.mp statement with ⟨_, _, _, _, rfl, rfl⟩ | ⟨_, _, _, _, rfl, rfl⟩ |
        ⟨_, _, _, _, rfl, rfl⟩ | ⟨_, _, rfl, rfl⟩ <;> exact ⟨⟨_, rfl⟩, List.mem_cons_self⟩
    obtain ⟨⟨relation, rfl⟩, member⟩ := asked
    obtain ⟨row, col, _, here⟩ := shows.onGrid_here.mp (met _ member)
    rw [here_denotes.mp denoted, here.1, here.2]
    exact ⟨row, col, rfl⟩

/-- The first rule about squares looks for corners from which it is not as far down as it is across. -/
theorem breaks_extents (bounded : board.Bounded) :
    Program.Breaks world (extentBody color) ↔
      (Plane.Sheet.ofShaded (board.colored color).Shades).Uneven := by
  have roles := roles_of_model model shows
  have covers {row col : Int} (shaded : (board.colored color).Shades row col) : board.Covers row col :=
    (shows.shades_colored.mp shaded).1
  refine breaks_uneven ["R", "C", "R", "C", "MR", "MC", "MR", "R", "MC", "C"] rfl (fun outer binding => ?_)
    (fun binding row col m here opening isLast => ?_) fun binding row col n here opening isLast => ?_
  · rw [List.forall_mem_cons, List.forall_mem_singleton]
    constructor
    · intro met
      obtain ⟨row, col, _, here⟩ := shows.onGrid_here.mp met.1
      have corner := (roles.corner_iff row col).mp ((holds_cell here.stands).mp met.2)
      exact ⟨row, col, here, Plane.Sheet.opening_ofShaded.mpr corner⟩
    · intro found
      obtain ⟨row, col, here, opening⟩ := found
      have corner := Plane.Sheet.opening_ofShaded.mp opening
      exact ⟨shows.onGrid_here.mpr ⟨row, col, covers corner.1, here⟩,
        (holds_cell here.stands).mpr ((roles.corner_iff row col).mpr corner)⟩
  · have inGrid := (Board.covers_iff bounded).mp (covers opening.1)
    refine ((Runs.down here ⟨by decide, by decide⟩ (by decide)).firstEnd_holds shows board.rows (fun number => ?_)
      (covers opening.1) isLast).trans (Plane.Sheet.firstAfter_top opening.1).symm
    rw [Board.covers_iff bounded, and_iff_left inGrid.2]
    rfl
  · have inGrid := (Board.covers_iff bounded).mp (covers opening.1)
    refine ((Runs.across here ⟨by decide, by decide⟩ (by decide)).firstEnd_holds shows board.cols (fun number => ?_)
      (covers opening.1) isLast).trans (Plane.Sheet.firstAfter_left opening.1).symm
    rw [Board.covers_iff bounded, and_iff_right inGrid.1]
    rfl

theorem breaks_step {first second : String} {toward off : Cell}
    (broken : Program.Breaks world (stepBody color first second toward off)) :
    ∃ row col, world (.cell (Roles.label color "upleft") row col) ∧
      world (.cell (Roles.label color first) (row + toward.row.val) (col + toward.col.val)) ∧
      ¬ world (.cell (Roles.label color second) (row + off.row.val) (col + off.col.val)) := by
  obtain ⟨binding, met⟩ := broken
  rw [stepBody, List.forall_mem_cons, List.forall_mem_cons, List.forall_mem_singleton] at met
  obtain ⟨corner, role, missing⟩ := met
  obtain ⟨row, col, same⟩ := rectangles_cells model shows _ (holds_here.mp corner)
  simp only [Fact.cell, Fact.mk.injEq, List.cons.injEq, true_and, and_true] at same
  have here : Place.Here binding row col := same
  exact ⟨row, col, (holds_cell here.stands).mp corner, (holds_cell (here.step_stands toward)).mp role,
    (fails_cell (here.step_stands off)).mp missing⟩

/-- A corner with a cell of the color below, but none beside it, or the other way round, opens no square. -/
theorem uneven_of_step {tiles : Plane.Box → Prop} (bendless : Plane.Bendless (board.colored color).Shades)
    (tiled : (Plane.Sheet.ofShaded (board.colored color).Shades).Tiled tiles)
    (broken : Program.Breaks world (stepBody color "left" "up" (.of 1 0) (.of 0 1)) ∨
      Program.Breaks world (stepBody color "up" "left" (.of 0 1) (.of 1 0))) :
    (Plane.Sheet.ofShaded (board.colored color).Shades).Uneven := by
  have roles := roles_of_model model shows
  have down : (Cell.of 1 0).row.val = 1 ∧ (Cell.of 1 0).col.val = 0 := by decide
  have across : (Cell.of 0 1).row.val = 0 ∧ (Cell.of 0 1).col.val = 1 := by decide
  rcases broken with broken | broken
  · obtain ⟨row, col, corner, role, missing⟩ := breaks_step model shows broken
    simp only [down, across, Int.add_zero] at role missing
    have isCorner := (roles.corner_iff row col).mp corner
    have below := ((roles.left_iff _ _).mp role).1
    refine tiled.uneven_of_step (Plane.Sheet.opening_ofShaded.mpr isCorner) (not_not.mpr ⟨?_, below⟩)
      fun both => missing (roles.top_of_corner bendless corner both.2)
    rw [Int.add_sub_cancel]
    exact isCorner.1
  · obtain ⟨row, col, corner, role, missing⟩ := breaks_step model shows broken
    simp only [down, across, Int.add_zero] at role missing
    have isCorner := (roles.corner_iff row col).mp corner
    have beside := ((roles.top_iff _ _).mp role).1
    obtain ⟨here, before, above⟩ := Plane.Sheet.opening_ofShaded.mpr isCorner
    refine (tiled.swap.uneven_of_step ⟨here, above, before⟩ (not_not.mpr ⟨?_, beside⟩)
      fun both => missing (roles.left_of_corner bendless corner both.2)).of_swap
    rw [Int.add_sub_cancel]
    exact isCorner.1

/-- Where the color nowhere bends, the rules about squares reject it if walls around it make some oblong box. -/
theorem squareGroups_violated_iff (bounded : board.Bounded) {tiles : Plane.Box → Prop}
    (bendless : Plane.Bendless (board.colored color).Shades)
    (tiled : (Plane.Sheet.ofShaded (board.colored color).Shades).Tiled tiles) :
    (⟨squareGroups color⟩ : Program).Violated world ↔
      (Plane.Sheet.ofShaded (board.colored color).Shades).Uneven := by
  rw [squareGroups_violated, breaks_extents model shows bounded]
  exact or_iff_left_of_imp (uneven_of_step model shows bendless tiled)

theorem violated_iff_bent : (rectangles color false).Violated world ↔
    ¬ Plane.Bendless (board.colored color).Shades := by
  have counted (row col : Int) (covers : board.Covers row col) : 0 ≤ row ∧ 0 ≤ col := by
    obtain ⟨cell, inside, rfl, rfl⟩ := covers
    have bounds := Board.contains_iff.mp inside
    exact ⟨bounds.1.1, bounds.2.1⟩
  rw [violated_iff model shows, (roles_of_model model shows).covered_iff
    (fun _ _ _ _ => Board.covers_crossing) counted fun row col shades => (shows.shades_colored.mp shades).1]

end Rectangles

/-- The rules about squares of a color have one model, and it breaks a constraint exactly if some group is no
square. -/
theorem squares_of_color (board : Board) (color : Color) (small : board.rows * board.cols ≤ 2147483647)
    (named : color.name ≠ Relation.grid) :
    (∃! world, (rectangles color true).Model (shadingFacts board color) world) ∧
      ∃ answer, (board.colored color).allRectangles true = .ok answer ∧
        ∀ world, (rectangles color true).Model (shadingFacts board color) world →
          ((rectangles color true).Violated world ↔ answer = false) := by
  have same (world : World) : (rectangles color true).Model (shadingFacts board color) world ↔
      (rectangles color false).Model (shadingFacts board color) world := by
    rw [rectangles_square]
    exact Program.model_append_constraints (by simp [squareGroups])
  have small' : (board.colored color).rows * (board.colored color).cols ≤ 2147483647 := by
    cases color <;> exact small
  obtain ⟨groups, answer, grouped, answered, bendless_iff, exact⟩ := Board.allSquares_ok small'
  have bounded := Board.bounded_of_area small'
  obtain ⟨classes, _⟩ := Board.IsGroup.of_components Adjacency.fixed_side grouped
  refine ⟨by simpa only [same] using existsUnique_model board color, answer, answered, fun world model => ?_⟩
  have model := (same world).mp model
  have shows := shows_of_rectangles model named
  rw [rectangles_square, Program.violated_append, violated_iff_bent model shows, ← bendless_iff,
    ← Bool.not_eq_true, exact]
  by_cases fills : ∀ group ∈ groups, Board.Fills group
  · have tiled := (Board.mirrors_shaded (board.colored color)).tiled Adjacency.fixed_side bounded grouped
      fun group member => ⟨fills group member, (classes group member).meshed⟩
    have framed (group : List Cell) (member : group ∈ groups) :=
      Board.exists_frames bounded (classes group member) (fills group member)
    rw [or_iff_right (not_not.mpr fills), and_iff_right fills, squareGroups_violated_iff model shows
      (Board.bounded_of_area small) (bendless_iff.mp fills) tiled, Board.uneven_iff tiled framed]
    push Not
    exact Iff.rfl
  · exact iff_of_true (.inl fills) fun both => fills both.1

theorem regions_square : outerWalls ++ rectangularRegions true =
    (outerWalls ++ rectangularRegions false) ++ ⟨[squareRegions]⟩ := by
  have same : (rectangularRegions true).statements = (rectangularRegions false).statements ++ [squareRegions] := by
    simp [rectangularRegions]
  refine congrArg Program.mk ?_
  rw [same, ← List.append_assoc]
  rfl

def wideBody : List Literal :=
  [.holds (.cell "region_upleft" .here)] ++
    [firstWall "MR" "R1" Relation.wallTop Place.here.row (⟨·, Place.here.col⟩),
      firstWall "MC" "C1" Relation.wallLeft Place.here.col (⟨Place.here.row, ·⟩), unequalExtents]

theorem squareRegions_violated : (⟨[squareRegions]⟩ : Program).Violated world ↔ Program.Breaks world wideBody := by
  have bodies : [squareRegions] = [wideBody].map .constraint := by
    rw [squareRegions, ofRegion_eq]
    rfl
  rw [bodies, Program.violated_constraints]
  simp only [List.mem_singleton, exists_eq_left]

section Regions

variable (isOuter : Borders rows cols outerWalls)
  (model : (outerWalls ++ rectangularRegions false).Model (regionFacts board) world)
include isOuter model

theorem regions_cells (fact : Fact) (holds : world fact) : ∃ r c, fact = .cell fact.relation r c := by
  have shows := regions_shows isOuter model
  rcases (model.iff_supported fact).mp holds with (⟨cell, _, rfl⟩ | ⟨_, _, _, cell, _, _, rfl⟩) | ⟨_, statement, _⟩ |
    ⟨head, body, statement, binding, denoted, met⟩
  · exact ⟨_, _, rfl⟩
  · exact ⟨_, _, rfl⟩
  · exact absurd statement (fact_not_mem_regions isOuter)
  · rcases (rule_mem_regions isOuter).mp statement with ⟨border, listed, rfl, rfl⟩ | inRoles
    · have asked := met _ List.mem_cons_self
      have byRow (number : Int) : StandAll binding (Place.args ⟨.var "R" 0, .int number⟩)
          [binding "R", .num number] := .cons (Term.stands_var "R") (.cons (Term.stands_int number) .nil)
      have byCol (number : Int) : StandAll binding (Place.args ⟨.int number, .var "C" 0⟩)
          [.num number, binding "C"] := .cons (Term.stands_int number) (.cons (Term.stands_var "C") .nil)
      simp only [borders, List.mem_cons, List.not_mem_nil, or_false] at listed
      rcases listed with rfl | rfl | rfl | rfl
      · obtain ⟨r, _, _, bound, _⟩ := (shows.onGrid_iff (byRow _)).mp asked
        rw [(Atom.denotes_iff (byRow _)).mp denoted, bound]
        exact ⟨r, _, rfl⟩
      · obtain ⟨r, _, _, bound, _⟩ := (shows.onGrid_iff (byRow _)).mp asked
        rw [(Atom.denotes_iff (byRow _)).mp denoted, bound]
        exact ⟨r, _, rfl⟩
      · obtain ⟨_, c, _, _, bound⟩ := (shows.onGrid_iff (byCol _)).mp asked
        rw [(Atom.denotes_iff (byCol _)).mp denoted, bound]
        exact ⟨_, c, rfl⟩
      · obtain ⟨_, c, _, _, bound⟩ := (shows.onGrid_iff (byCol _)).mp asked
        rw [(Atom.denotes_iff (byCol _)).mp denoted, bound]
        exact ⟨_, c, rfl⟩
    · have asked : .test (onGrid .here) ∈ body := by
        rcases rule_mem_regionRoles.mp inRoles with ⟨_, rfl⟩ | ⟨_, _, _, rfl⟩ | ⟨_, _, _, rfl⟩ | ⟨_, _, _, rfl⟩ <;>
          exact List.mem_cons_self
      obtain ⟨role, _, rfl⟩ := role_of_mem inRoles
      obtain ⟨row, col, _, here⟩ := shows.onGrid_here.mp (met _ asked)
      rw [here_denotes.mp denoted, here.1, here.2]
      exact ⟨row, col, rfl⟩

theorem breaks_wide : Program.Breaks world wideBody ↔ world.sheet.Uneven := by
  have cells {relation : String} (fact : Fact) (holds : world fact) (same : fact.relation = relation) :
      ∃ r c, fact = .cell relation r c :=
    same ▸ regions_cells isOuter model fact holds
  have corner_iff := (regions_roles isOuter model).corner_iff
  refine breaks_uneven ["R", "C", "MR", "MC", "MR", "R", "MC", "C"] rfl (fun outer binding => ?_)
    (fun binding row col m here _ isLast => ?_) fun binding row col n here _ isLast => ?_
  · rw [List.forall_mem_singleton]
    constructor
    · intro holds
      obtain ⟨row, col, same⟩ := cells _ (holds_here.mp holds) rfl
      simp only [Fact.cell, Fact.mk.injEq, List.cons.injEq, true_and, and_true] at same
      have here : Place.Here binding row col := same
      exact ⟨row, col, here, (corner_iff row col).mp ((holds_cell here.stands).mp holds)⟩
    · intro found
      obtain ⟨row, col, here, opening⟩ := found
      exact (holds_cell here.stands).mpr ((corner_iff row col).mpr opening)
  · exact (Runs.down here ⟨by decide, by decide⟩ (by decide)).firstWall_holds cells isLast
  · exact (Runs.across here ⟨by decide, by decide⟩ (by decide)).firstWall_holds cells isLast

end Regions

/-- With the border walls, the rules about square regions have one model, and it breaks a constraint exactly if
walls enclose a group with fewer cells than the box around it, or with a box that is no square, or with a wall
between two of its own cells. -/
theorem squares_of_regions (board : Board) (rows cols : Coord) (tall : rows.val = board.rows)
    (wide : cols.val = board.cols) :
    ∃ outer groups, walls rows cols = .ok outer ∧ board.full.components .walled = .ok groups ∧
      (∀ group ∈ groups, ∃ box, Board.box? group = .ok (some box)) ∧
      (∃! world, (outer ++ rectangularRegions true).Model (regionFacts board) world) ∧
      ∀ world, (outer ++ rectangularRegions true).Model (regionFacts board) world →
        ((outer ++ rectangularRegions true).Violated world ↔ ∃ group ∈ groups,
          (∃ box, Board.box? group = .ok (some box) ∧ ((group.length : Int) < box.height.val * box.width.val ∨
            box.height.val ≠ box.width.val)) ∨ board.Parted group) := by
  have sizes := board.positive
  have bounded := bounded_full tall wide
  obtain ⟨outer, built, isOuter⟩ := walls_ok rows cols (by omega) (by omega)
  obtain ⟨groups, grouped⟩ := bounded.exists_components Adjacency.fixed_walled
  have same (world : World) : (outer ++ rectangularRegions true).Model (regionFacts board) world ↔
      (outer ++ rectangularRegions false).Model (regionFacts board) world := by
    rw [regions_square]
    exact Program.model_append_constraints (by simp [squareRegions])
  refine ⟨outer, groups, built, grouped, fun group member => ?_,
    by simpa only [same] using existsUnique_regions isOuter (regionFacts board), fun world model => ?_⟩
  · obtain ⟨box, boxed, _⟩ := exists_boxes bounded grouped group member
    exact ⟨box, boxed⟩
  have model := (same world).mp model
  have violated := (violated_iff_groups tall wide isOuter grouped model).symm.trans
    (violated_iff_aligned tall wide isOuter model)
  rw [regions_square, Program.violated_append, violated_iff_aligned tall wide isOuter model,
    squareRegions_violated, breaks_wide isOuter model, sheet_of_model tall wide isOuter model]
  by_cases isAligned : board.sheet.Aligned
  · have whole := (Board.aligned_iff grouped).mp isAligned
    obtain ⟨classes, _⟩ := Board.IsGroup.of_components Adjacency.fixed_walled grouped
    have tiled := (Board.mirrors_walled board).tiled Adjacency.fixed_walled bounded grouped fun group member =>
      ⟨(whole group member).1, (classes group member).meshed_of_whole (whole group member).2⟩
    have framed (group : List Cell) (member : group ∈ groups) :=
      Board.exists_frames bounded (classes group member) (whole group member).1
    rw [or_iff_right (not_not.mpr isAligned), Board.uneven_iff tiled framed]
    have unbroken := mt violated.mp (not_not.mpr isAligned)
    push Not at unbroken
    refine exists_congr fun group => and_congr_right fun member => ?_
    rw [or_iff_left (unbroken group member).2]
    exact exists_congr fun box => and_congr_right fun boxed =>
      (or_iff_right (not_lt.mpr ((unbroken group member).1 box boxed))).symm
  · obtain ⟨group, member, broken⟩ := violated.mpr isAligned
    refine iff_of_true (.inl isAligned) ⟨group, member, broken.imp_left fun found => ?_⟩
    obtain ⟨box, boxed, smaller⟩ := found
    exact ⟨box, boxed, .inl smaller⟩

/-- The rules about squares, of a color or of regions, have one model, and it breaks a constraint exactly if
some group is no square: what is found of the color on the board, or of the groups between the walls. -/
theorem squares_agree :
    (∀ board color, board.rows * board.cols ≤ 2147483647 → color.name ≠ Relation.grid →
      (∃! world, (rectangles color true).Model (shadingFacts board color) world) ∧
        ∃ answer, (board.colored color).allRectangles true = .ok answer ∧
          ∀ world, (rectangles color true).Model (shadingFacts board color) world →
            ((rectangles color true).Violated world ↔ answer = false)) ∧
    ∀ (board : Board) (rows cols : Coord), rows.val = board.rows → cols.val = board.cols →
      ∃ outer groups, walls rows cols = .ok outer ∧ board.full.components .walled = .ok groups ∧
        (∀ group ∈ groups, ∃ box, Board.box? group = .ok (some box)) ∧
        (∃! world, (outer ++ rectangularRegions true).Model (regionFacts board) world) ∧
        ∀ world, (outer ++ rectangularRegions true).Model (regionFacts board) world →
          ((outer ++ rectangularRegions true).Violated world ↔ ∃ group ∈ groups,
            (∃ box, Board.box? group = .ok (some box) ∧ ((group.length : Int) < box.height.val * box.width.val ∨
              box.height.val ≠ box.width.val)) ∨ board.Parted group) :=
  ⟨squares_of_color, squares_of_regions⟩

/-- One cell above another. -/
def dominoBoard : Board := Board.ofShading 2 1 (by decide) fun _ _ => true

theorem squares_agree_domino :
    (∃ world, (rectangles (.positive "black") true).Model (shadingFacts dominoBoard (.positive "black")) world ∧
      (rectangles (.positive "black") true).Violated world) ∧
    ∃ outer world, walls (.of 2) (.of 1) = .ok outer ∧
      (outer ++ rectangularRegions true).Model (regionFacts dominoBoard) world ∧
      (outer ++ rectangularRegions true).Violated world := by
  constructor
  · obtain ⟨⟨world, model, _⟩, answer, found, agree⟩ :=
      squares_agree.1 dominoBoard (.positive "black") (by decide) (by decide)
    have expected : (dominoBoard.colored (.positive "black")).allRectangles true = .ok false := by decide +kernel
    exact ⟨world, model, (agree world model).mpr (Except.ok.inj (found.symm.trans expected))⟩
  · obtain ⟨outer, groups, built, grouped, _, ⟨world, model, _⟩, agree⟩ :=
      squares_agree.2 dominoBoard (.of 2) (.of 1) (by decide) (by decide)
    have found : dominoBoard.full.components .walled = .ok [[.of 0 0, .of 1 0]] := by decide +kernel
    obtain rfl := Except.ok.inj (grouped.symm.trans found)
    have boxed : Board.box? [.of 0 0, .of 1 0] = .ok (some ⟨.of 0 0, .of 2, .of 1⟩) := by decide
    exact ⟨outer, world, built, model, (agree world model).mpr
      ⟨_, List.mem_singleton_self _, .inl ⟨_, boxed, .inr (by decide)⟩⟩⟩

end Template

end GridPuzzle
