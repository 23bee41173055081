import GridPuzzle.Template.Grid
import GridPuzzle.Template.Region
import GridPuzzle.Proofs.Board.Regions
import GridPuzzle.Proofs.Template.Rectangle

/-!
Regions by roles. With the border walls, the rules about regions give each cell the role that its walls ask
for, so that a constraint is broken exactly if walls enclose something else than a filled box, or stand
inside of one.
-/
namespace GridPuzzle

/-- The grid and the walls that a world knows of. -/
def World.sheet (world : World) : Plane.Sheet where
  grid row col := world (.cell Relation.grid row col)
  left row col := world (.cell Relation.wallLeft row col)
  top row col := world (.cell Relation.wallTop row col)

namespace Template

variable {board : Board} {rows cols : Coord} {outer : Program} {world : World} {row col : Int}

/-- Each border with its wall, the places of the wall and the cells that it belongs to. -/
def borders (rows cols : Coord) : List (String × Place × Place) :=
  [(Relation.wallLeft, ⟨.var "R" 0, .int 0⟩, ⟨.var "R" 0, .int 0⟩),
    (Relation.wallLeft, ⟨.var "R" 0, .int cols.val⟩, ⟨.var "R" 0, .int (cols.val - 1)⟩),
    (Relation.wallTop, ⟨.int 0, .var "C" 0⟩, ⟨.int 0, .var "C" 0⟩),
    (Relation.wallTop, ⟨.int rows.val, .var "C" 0⟩, ⟨.int (rows.val - 1), .var "C" 0⟩)]

/-- Apart from free choices, the program has the rules of the borders. -/
structure Borders (rows cols : Coord) (outer : Program) : Prop where
  rule_mem : ∀ {head body}, .rule head body ∈ outer.statements ↔
    ∃ border ∈ borders rows cols, head = .cell border.1 border.2.1 ∧ body = [.test (onGrid border.2.2)]
  no_fact : ∀ {atom}, .fact atom ∉ outer.statements
  no_constraint : ∀ {body}, .constraint body ∉ outer.statements

theorem walls_ok (rows cols : Coord) (tall : 0 < rows.val) (wide : 0 < cols.val) :
    ∃ outer, walls rows cols = .ok outer ∧ Borders rows cols outer := by
  have checked : requireCells rows cols = .ok () := if_neg (by omega)
  have rowRange := rows.inRange
  have colRange := cols.inRange
  have bottom : last rows = .ok ⟨rows.val - 1, by omega⟩ := Coord.checked_ok _
  have right : last cols = .ok ⟨cols.val - 1, by omega⟩ := Coord.checked_ok _
  refine ⟨_, (Outcome.bind_of_ok checked _).trans ((Outcome.bind_of_ok bottom _).trans
    (Outcome.bind_of_ok right _)), ⟨?_, ?_, ?_⟩⟩
  · simp [borders, @eq_comm _ _ (Atom.cell _ _), @eq_comm _ _ [Literal.test _]]
  · simp
  · simp

theorem rule_mem_regionRoles {head : Atom} {body : List Literal} : .rule head body ∈ regionRoles ↔
    (head = .cell Roles.ofRegion.corner .here ∧ body = [.test (onGrid .here),
      .holds (.cell Relation.wallLeft .here), .holds (.cell Relation.wallTop .here)]) ∨
    (∃ role ∈ [Roles.ofRegion.corner, Roles.ofRegion.left], head = .cell Roles.ofRegion.left .here ∧
      body = [.test (onGrid .here), .holds (.cell Relation.wallLeft .here),
        .fails (.cell Relation.wallTop .here), .holds (.cell role above)]) ∨
    (∃ role ∈ [Roles.ofRegion.corner, Roles.ofRegion.top], head = .cell Roles.ofRegion.top .here ∧
      body = [.test (onGrid .here), .holds (.cell Relation.wallTop .here),
        .fails (.cell Relation.wallLeft .here), .holds (.cell role before)]) ∨
    ∃ pair ∈ Roles.ofRegion.aroundInner, head = .cell Roles.ofRegion.inner .here ∧
      body = [.test (onGrid .here), .fails (.cell Relation.wallLeft .here),
        .fails (.cell Relation.wallTop .here), .holds (.cell pair.1 before), .holds (.cell pair.2 above)] := by
  simp only [regionRoles, List.mem_append, List.mem_map, List.mem_cons, Statement.rule.injEq, List.not_mem_nil,
    or_false, or_assoc, @eq_comm _ head, @eq_comm _ body]

/-- Two cells joined without the wall between them, as offsets, with the walls that they have to share. -/
structure Joint where
  next : Cell
  between : String
  shared : String
  first : Cell
  second : Cell

def joints : List Joint :=
  [⟨.of 0 1, Relation.wallLeft, Relation.wallTop, .of 0 0, .of 0 1⟩,
    ⟨.of 0 1, Relation.wallLeft, Relation.wallTop, .of 1 0, .of 1 1⟩,
    ⟨.of 1 0, Relation.wallTop, Relation.wallLeft, .of 0 0, .of 1 0⟩,
    ⟨.of 1 0, Relation.wallTop, Relation.wallLeft, .of 0 1, .of 1 1⟩]

def Joint.constraints (joint : Joint) : List Statement :=
  unaligned (Place.here.step joint.next) joint.between joint.shared (Place.here.step joint.first)
    (Place.here.step joint.second)

theorem aligned_eq : aligned = joints.flatMap Joint.constraints := rfl

theorem regions_statements : (outer ++ rectangularRegions false).statements = outer.statements ++
    (regionRoles ++ [.constraint (.test (onGrid .here) :: Roles.ofRegion.none .here)] ++ aligned ++ []) := rfl

theorem rule_mem_regions (isOuter : Borders rows cols outer) {head : Atom} {body : List Literal} :
    .rule head body ∈ (outer ++ rectangularRegions false).statements ↔
      (∃ border ∈ borders rows cols, head = .cell border.1 border.2.1 ∧
        body = [.test (onGrid border.2.2)]) ∨ .rule head body ∈ regionRoles := by
  rw [regions_statements, List.mem_append, isOuter.rule_mem, aligned_eq]
  simp [Joint.constraints, unaligned]

theorem fact_not_mem_regions (isOuter : Borders rows cols outer) {atom : Atom} :
    .fact atom ∉ (outer ++ rectangularRegions false).statements := by
  rw [regions_statements, List.mem_append, not_or]
  exact ⟨isOuter.no_fact, by simp [regionRoles, aligned_eq, Joint.constraints, unaligned]⟩

theorem constraint_mem_regions (isOuter : Borders rows cols outer) {body : List Literal} :
    .constraint body ∈ (outer ++ rectangularRegions false).statements ↔
      body = .test (onGrid .here) :: Roles.ofRegion.none .here ∨
        ∃ joint ∈ joints, .constraint body ∈ joint.constraints := by
  rw [regions_statements, List.mem_append, or_iff_right isOuter.no_constraint, aligned_eq]
  simp [regionRoles]

def regionFacts (board : Board) : World := board.gridFacts.join board.wallFacts

theorem ofRegion_eq : Roles.ofRegion = ⟨"region_upleft", "region_left", "region_up", "region_remain"⟩ := by
  have corner : Roles.ofRegion.corner = "region_upleft" := by decide +kernel
  have left : Roles.ofRegion.left = "region_left" := by decide +kernel
  have top : Roles.ofRegion.top = "region_up" := by decide +kernel
  have inner : Roles.ofRegion.inner = "region_remain" := by decide +kernel
  rw [← corner, ← left, ← top, ← inner]

def roleNames : List String := ["region_upleft", "region_left", "region_up", "region_remain"]

theorem role_of_mem {head : Atom} {body : List Literal} (statement : .rule head body ∈ regionRoles) :
    ∃ role ∈ roleNames, head = .cell role .here := by
  rw [rule_mem_regionRoles, ofRegion_eq] at statement
  rcases statement with ⟨rfl, _⟩ | ⟨_, _, rfl, _⟩ | ⟨_, _, rfl, _⟩ | ⟨_, _, rfl, _⟩ <;>
    exact ⟨_, by simp [roleNames], rfl⟩

theorem wall_of_mem {border : String × Place × Place} (listed : border ∈ borders rows cols) :
    border.1 ∈ [Relation.wallLeft, Relation.wallTop] := by
  simp only [borders, List.mem_cons, List.not_mem_nil, or_false] at listed
  rcases listed with rfl | rfl | rfl | rfl <;> simp

section Model

variable (isOuter : Borders rows cols outer)
  (model : (outer ++ rectangularRegions false).Model (regionFacts board) world)
include isOuter model

theorem regions_grid (fact : Fact) (same : fact.relation = Relation.grid) : world fact ↔ board.gridFacts fact := by
  have undefined : ¬ (outer ++ rectangularRegions false).Defines fact.relation := by
    rw [same]
    intro defines
    rcases defines with ⟨atom, statement, _⟩ | ⟨head, body, statement, isGrid⟩
    · exact fact_not_mem_regions isOuter statement
    · rcases (rule_mem_regions isOuter).mp statement with ⟨border, listed, rfl, _⟩ | inRoles
      · have apart : Relation.grid ∉ [Relation.wallLeft, Relation.wallTop] := by decide
        exact apart (isGrid ▸ wall_of_mem listed)
      · obtain ⟨role, isRole, rfl⟩ := role_of_mem inRoles
        have apart : Relation.grid ∉ roleNames := by decide
        exact apart (isGrid ▸ isRole)
  rw [model.iff_given undefined]
  refine or_iff_left fun isWall => ?_
  rcases Board.wallFacts_relation isWall with isLeft | isTop
  · exact absurd (same.symm.trans isLeft) (by decide)
  · exact absurd (same.symm.trans isTop) (by decide)

theorem regions_shows : world.Shows board none := ⟨regions_grid isOuter model, nofun⟩

/-- A wall is given, or some border has it. -/
theorem wall_supported {wall : String} (isWall : wall ∈ [Relation.wallLeft, Relation.wallTop]) :
    world (.cell wall row col) ↔ board.wallFacts (.cell wall row col) ∨ ∃ border ∈ borders rows cols,
      border.1 = wall ∧ ∃ binding, (Atom.cell wall border.2.1).Denotes binding (.cell wall row col) ∧
        (onGrid border.2.2).Holds world binding := by
  rw [model.iff_supported]
  constructor
  · intro reason
    rcases reason with (isGrid | given) | ⟨atom, statement, _⟩ | ⟨head, body, statement, binding, denoted, met⟩
    · have apart : Relation.grid ∉ [Relation.wallLeft, Relation.wallTop] := by decide
      rw [← Board.gridFacts_relation isGrid] at apart
      exact absurd isWall apart
    · exact .inl given
    · exact absurd statement (fact_not_mem_regions isOuter)
    · rcases (rule_mem_regions isOuter).mp statement with ⟨border, listed, rfl, rfl⟩ | inRoles
      · obtain rfl : wall = border.1 := denoted.1
        exact .inr ⟨border, listed, rfl, binding, denoted, met _ List.mem_cons_self⟩
      · obtain ⟨role, isRole, rfl⟩ := role_of_mem inRoles
        obtain rfl : wall = role := denoted.1
        have apart : ∀ role ∈ roleNames, role ∉ [Relation.wallLeft, Relation.wallTop] := by decide
        exact absurd isWall (apart _ isRole)
  · intro reason
    rcases reason with given | ⟨border, listed, rfl, binding, denoted, holds⟩
    · exact .inl (.inr given)
    · refine .inr (.inr ⟨_, _, (rule_mem_regions isOuter).mpr (.inl ⟨border, listed, rfl, rfl⟩), binding,
        denoted, ?_⟩)
      exact List.forall_mem_singleton.mpr holds

end Model

/-- A rule of a border speaks of a line where the grid ends and of the line of cells beside it. The two have one
coordinate each, and the variable of the rule stands for the other. -/
private theorem border_iff (shows : world.Shows board none) {wall : String} (name : String) (place : Int → Place)
    (args : Value → Int → Value × Value) (stand : ∀ binding number, StandAll binding (place number).args
      [(args (binding name) number).1, (args (binding name) number).2]) {side inner : Int} :
    (∃ binding, (Atom.cell wall (place side)).Denotes binding (.cell wall row col) ∧
      (onGrid (place inner)).Holds world binding) ↔ ∃ along, args along side = (.num row, .num col) ∧
        ∃ r c, board.Covers r c ∧ args along inner = (.num r, .num c) := by
  simp only [Atom.cell, Atom.denotes_iff (stand _ _), shows.onGrid_iff (stand _ _), Fact.cell, Fact.mk.injEq,
    List.cons.injEq, and_true, true_and, Prod.ext_iff]
  constructor
  · intro border
    obtain ⟨binding, ⟨rows, cols⟩, inside⟩ := border
    exact ⟨binding name, ⟨rows.symm, cols.symm⟩, inside⟩
  · intro border
    obtain ⟨along, ⟨rows, cols⟩, inside⟩ := border
    exact ⟨fun _ => along, ⟨rows.symm, cols.symm⟩, inside⟩

theorem row_border (shows : world.Shows board none) {wall : String} {side inner : Int} :
    (∃ binding, (Atom.cell wall ⟨.var "R" 0, .int side⟩).Denotes binding (.cell wall row col) ∧
      (onGrid ⟨.var "R" 0, .int inner⟩).Holds world binding) ↔ col = side ∧ board.Covers row inner := by
  have stand (binding : Binding) (number : Int) :
      StandAll binding (Place.args ⟨.var "R" 0, .int number⟩) [binding "R", .num number] :=
    .cons (Term.stands_var "R") (.cons (Term.stands_int number) .nil)
  rw [border_iff shows "R" (⟨.var "R" 0, .int ·⟩) (fun along number => (along, .num number)) stand]
  simp [@eq_comm _ side]

theorem col_border (shows : world.Shows board none) {wall : String} {side inner : Int} :
    (∃ binding, (Atom.cell wall ⟨.int side, .var "C" 0⟩).Denotes binding (.cell wall row col) ∧
      (onGrid ⟨.int inner, .var "C" 0⟩).Holds world binding) ↔ row = side ∧ board.Covers inner col := by
  have stand (binding : Binding) (number : Int) :
      StandAll binding (Place.args ⟨.int number, .var "C" 0⟩) [.num number, binding "C"] :=
    .cons (Term.stands_int number) (.cons (Term.stands_var "C") .nil)
  rw [border_iff shows "C" (⟨.int ·, .var "C" 0⟩) (fun along number => (.num number, along)) stand]
  simp [@eq_comm _ side]

/-- The rules of the borders put a wall wherever the grid ends. -/
theorem sheet_of_model (tall : rows.val = board.rows) (wide : cols.val = board.cols)
    (isOuter : Borders rows cols outer)
    (model : (outer ++ rectangularRegions false).Model (regionFacts board) world) : world.sheet = board.sheet := by
  have shows := regions_shows isOuter model
  have bounded : board.Bounded := ⟨by have := rows.inRange; omega, by have := cols.inRange; omega⟩
  have apart : Relation.wallLeft ≠ Relation.wallTop := by decide
  have grid (row col : Int) : world (.cell Relation.grid row col) = board.Covers row col :=
    propext shows.grid_cell
  have left (row col : Int) : world (.cell Relation.wallLeft row col) =
      board.Barred (.right, Relation.wallLeft) row col := by
    have offset : Side.right.offset.row.val = 0 ∧ Side.right.offset.col.val = 1 := by decide
    rw [wall_supported isOuter model (by decide)]
    refine propext (or_congr_right ?_)
    simp only [borders, List.exists_mem_cons_iff, List.not_mem_nil, false_and, exists_false, or_false, apart.symm,
      true_and, row_border shows, Board.covers_iff bounded, offset]
    constructor <;> omega
  have top (row col : Int) : world (.cell Relation.wallTop row col) =
      board.Barred (.down, Relation.wallTop) row col := by
    have offset : Side.down.offset.row.val = 1 ∧ Side.down.offset.col.val = 0 := by decide
    rw [wall_supported isOuter model (by decide)]
    refine propext (or_congr_right ?_)
    simp only [borders, List.exists_mem_cons_iff, List.not_mem_nil, false_and, exists_false, or_false, false_or,
      apart, true_and, col_border shows, Board.covers_iff bounded, offset]
    constructor <;> omega
  simp only [World.sheet, grid, left, top]
  rfl

theorem corner_mem_regionRoles {body : List Literal} : .rule (.cell "region_upleft" .here) body ∈ regionRoles ↔
    body = [.test (onGrid .here), .holds (.cell Relation.wallLeft .here),
      .holds (.cell Relation.wallTop .here)] := by
  simp [rule_mem_regionRoles, ofRegion_eq, cell_inj]

theorem left_mem_regionRoles {body : List Literal} : .rule (.cell "region_left" .here) body ∈ regionRoles ↔
    body ∈ ["region_upleft", "region_left"].map fun role => [.test (onGrid .here),
      .holds (.cell Relation.wallLeft .here), .fails (.cell Relation.wallTop .here), .holds (.cell role above)] := by
  simp [rule_mem_regionRoles, ofRegion_eq, cell_inj]

theorem top_mem_regionRoles {body : List Literal} : .rule (.cell "region_up" .here) body ∈ regionRoles ↔
    body ∈ ["region_upleft", "region_up"].map fun role => [.test (onGrid .here),
      .holds (.cell Relation.wallTop .here), .fails (.cell Relation.wallLeft .here), .holds (.cell role before)] := by
  simp [rule_mem_regionRoles, ofRegion_eq, cell_inj]

theorem aroundInner_ofRegion : Roles.ofRegion.aroundInner = [("region_left", "region_up"),
    ("region_left", "region_remain"), ("region_remain", "region_up"), ("region_remain", "region_remain")] := by
  rw [ofRegion_eq]
  rfl

theorem inner_mem_regionRoles {body : List Literal} : .rule (.cell "region_remain" .here) body ∈ regionRoles ↔
    body ∈ Roles.ofRegion.aroundInner.map fun pair =>
      [.test (onGrid .here), .fails (.cell Relation.wallLeft .here), .fails (.cell Relation.wallTop .here),
        .holds (.cell pair.1 before), .holds (.cell pair.2 above)] := by
  simp [rule_mem_regionRoles, ofRegion_eq, cell_inj, @eq_comm _ body]

section Roles

variable (isOuter : Borders rows cols outer)
  (model : (outer ++ rectangularRegions false).Model (regionFacts board) world)
include isOuter model

theorem region_supported {role : String} (isRole : role ∈ roleNames) : world (.cell role row col) ↔
    ∃ body, .rule (.cell role .here) body ∈ regionRoles ∧ ∃ binding, Place.Here binding row col ∧
      ∀ literal ∈ body, literal.Holds world (Program.ruleScope (.cell role .here) body) binding := by
  rw [model.iff_supported]
  refine ⟨fun reason => ?_, fun derived => .inr (.inr ?_)⟩
  · rcases reason with given | ⟨_, statement, _⟩ | ⟨head, body, statement, binding, denoted, met⟩
    · have apart : ∀ role ∈ roleNames, role ∉ [Relation.grid, Relation.wallLeft, Relation.wallTop] := by decide
      refine absurd ?_ (apart role isRole)
      rcases given with isGrid | isWall
      · exact List.mem_cons.mpr (.inl (Board.gridFacts_relation isGrid))
      · exact List.mem_cons_of_mem _ (List.mem_pair.mpr (Board.wallFacts_relation isWall))
    · exact absurd statement (fact_not_mem_regions isOuter)
    · rcases (rule_mem_regions isOuter).mp statement with ⟨border, listed, rfl, rfl⟩ | inRoles
      · have apart : ∀ role ∈ roleNames, role ∉ [Relation.wallLeft, Relation.wallTop] := by decide
        obtain rfl : role = border.1 := denoted.1
        exact absurd (wall_of_mem listed) (apart _ isRole)
      · obtain ⟨other, _, rfl⟩ := role_of_mem inRoles
        obtain ⟨rfl, here⟩ := here_denotes_cell.mp denoted
        exact ⟨body, inRoles, binding, here, met⟩
  · obtain ⟨body, statement, binding, here, met⟩ := derived
    exact ⟨_, body, (rule_mem_regions isOuter).mpr (.inr statement), binding,
      here_denotes_cell.mpr ⟨rfl, here⟩, met⟩

theorem region_corner_iff (row col : Int) : world (.cell "region_upleft" row col) ↔
    world.sheet.grid row col ∧ world.sheet.left row col ∧ world.sheet.top row col := by
  rw [region_supported isOuter model (by decide)]
  simp only [corner_mem_regionRoles, exists_eq_left]
  refine Place.exists_here_iff fun binding here => ?_
  simp only [List.forall_mem_cons, List.not_mem_nil, false_imp_iff, implies_true, and_true, Literal.holds,
    Literal.Holds, onGrid, holds_cell here.stands, World.sheet]

/-- The first column and the first row of a region grow alike: along a wall, from the cell before. -/
theorem region_edge_iff {role along free : String} (isRole : role ∈ roleNames) {toward : Place} {row' col' : Int}
    (rule : ∀ {body}, .rule (.cell role .here) body ∈ regionRoles ↔ body ∈ ["region_upleft", role].map fun other =>
      [.test (onGrid .here), .holds (.cell along .here), .fails (.cell free .here), .holds (.cell other toward)])
    (towardStands : ∀ {binding}, Place.Here binding row col → toward.Stands binding row' col') :
    world (.cell role row col) ↔ world.sheet.grid row col ∧ world (.cell along row col) ∧
      ¬ world (.cell free row col) ∧ (world (.cell "region_upleft" row' col') ∨ world (.cell role row' col')) := by
  have each : world (.cell role row col) ↔ ∃ other ∈ ["region_upleft", role], world.sheet.grid row col ∧
      world (.cell along row col) ∧ ¬ world (.cell free row col) ∧ world (.cell other row' col') := by
    rw [region_supported isOuter model isRole]
    simp only [rule, List.mem_map, exists_exists_and_eq_and]
    refine exists_congr fun other => and_congr_right fun _ => Place.exists_here_iff fun binding here => ?_
    simp only [List.forall_mem_cons, List.not_mem_nil, false_imp_iff, implies_true, and_true, Literal.holds,
      Literal.fails, Literal.Holds, onGrid, holds_cell here.stands, fails_cell here.stands,
      holds_cell (towardStands here), World.sheet]
  rw [each]
  simp only [List.exists_mem_cons_iff, List.not_mem_nil, false_and, exists_false, or_false, and_or_left]

theorem region_inner_iff (row col : Int) : world (.cell "region_remain" row col) ↔
    world.sheet.grid row col ∧ ¬ world.sheet.left row col ∧ ¬ world.sheet.top row col ∧
      (world (.cell "region_left" row (col - 1)) ∨ world (.cell "region_remain" row (col - 1))) ∧
      (world (.cell "region_up" (row - 1) col) ∨ world (.cell "region_remain" (row - 1) col)) := by
  have each : world (.cell "region_remain" row col) ↔ ∃ pair ∈ Roles.ofRegion.aroundInner,
      world.sheet.grid row col ∧ ¬ world.sheet.left row col ∧ ¬ world.sheet.top row col ∧
        world (.cell pair.1 row (col - 1)) ∧ world (.cell pair.2 (row - 1) col) := by
    rw [region_supported isOuter model (by decide)]
    simp only [inner_mem_regionRoles, List.mem_map, exists_exists_and_eq_and]
    refine exists_congr fun pair => and_congr_right fun _ => Place.exists_here_iff fun binding here => ?_
    simp only [List.forall_mem_cons, List.not_mem_nil, false_imp_iff, implies_true, and_true, Literal.holds,
      Literal.fails, Literal.Holds, onGrid, holds_cell here.stands, fails_cell here.stands,
      holds_cell (before_stands here), holds_cell (above_stands here), World.sheet]
  rw [each, aroundInner_ofRegion]
  simp only [List.exists_mem_cons_iff, List.not_mem_nil, false_and, exists_false, or_false, or_and_right, and_or_left,
    or_assoc]
  exact or_congr_right or_left_comm

theorem regions_roles : world.sheet.Roles (fun row col => world (.cell "region_upleft" row col))
    (fun row col => world (.cell "region_left" row col)) (fun row col => world (.cell "region_up" row col))
    (fun row col => world (.cell "region_remain" row col)) where
  corner_iff := region_corner_iff isOuter model
  left_iff _ _ := region_edge_iff isOuter model (by decide) left_mem_regionRoles above_stands
  top_iff _ _ := region_edge_iff isOuter model (by decide) top_mem_regionRoles before_stands
  inner_iff := region_inner_iff isOuter model

end Roles

/-- The cells are joined, and just one of the two walls that they have to share stands. -/
def Joint.Breaks (joint : Joint) (world : World) (row col : Int) : Prop :=
  world (.cell Relation.grid row col) ∧
    world (.cell Relation.grid (row + joint.next.row.val) (col + joint.next.col.val)) ∧
    ¬ world (.cell joint.between (row + joint.next.row.val) (col + joint.next.col.val)) ∧
    ¬ (world (.cell joint.shared (row + joint.first.row.val) (col + joint.first.col.val)) ↔
      world (.cell joint.shared (row + joint.second.row.val) (col + joint.second.col.val)))

theorem joint_met {joint : Joint} {binding : Binding} (here : Place.Here binding row col) :
    (∃ body, .constraint body ∈ joint.constraints ∧
      ∀ literal ∈ body, literal.Holds world (body.flatMap Literal.outer) binding) ↔ joint.Breaks world row col := by
  have stands (offset : Cell) := here.step_stands offset
  simp only [Joint.constraints, unaligned, List.mem_cons, List.not_mem_nil, or_false, Statement.constraint.injEq,
    or_and_right, exists_or, exists_eq_left, List.cons_append, List.nil_append, forall_eq_or_imp, forall_eq,
    Literal.holds, Literal.fails, Literal.Holds, onGrid, holds_cell here.stands, holds_cell (stands _),
    fails_cell (stands _), Joint.Breaks]
  tauto

theorem none_met {binding : Binding} {outer : List String} (here : Place.Here binding row col) :
    (∀ literal ∈ Literal.test (onGrid .here) :: Roles.ofRegion.none .here, literal.Holds world outer binding) ↔
      world.sheet.grid row col ∧ ∀ role ∈ roleNames, ¬ world (.cell role row col) := by
  simp only [Roles.none, ofRegion_eq, roleNames, List.forall_mem_cons, List.not_mem_nil, false_imp_iff,
    implies_true, Literal.fails, Literal.Holds, onGrid, holds_cell here.stands, fails_cell here.stands, World.sheet]

/-- A constraint is broken where a joint is, or where a cell has no role. -/
theorem violated_regions (isOuter : Borders rows cols outer) (shows : world.Shows board none) :
    (outer ++ rectangularRegions false).Violated world ↔ (∃ joint ∈ joints, ∃ row col, joint.Breaks world row col) ∨
      ∃ row col, world.sheet.grid row col ∧ ∀ role ∈ roleNames, ¬ world (.cell role row col) := by
  constructor
  · intro violated
    obtain ⟨body, statement, binding, met⟩ := violated
    rcases (constraint_mem_regions isOuter).mp statement with rfl | ⟨joint, listed, inJoint⟩
    · obtain ⟨row, col, _, here⟩ := shows.onGrid_here.mp (met _ List.mem_cons_self)
      exact .inr ⟨row, col, (none_met here).mp met⟩
    · have asked : .test (onGrid .here) ∈ body := by
        simp only [Joint.constraints, unaligned, List.mem_cons, List.not_mem_nil, or_false,
          Statement.constraint.injEq] at inJoint
        rcases inJoint with rfl | rfl <;> exact List.mem_cons_self
      obtain ⟨row, col, _, here⟩ := shows.onGrid_here.mp (met _ asked)
      exact .inl ⟨joint, listed, row, col, (joint_met here).mp ⟨body, inJoint, met⟩⟩
  · intro broken
    rcases broken with ⟨joint, listed, row, col, breaks⟩ | ⟨row, col, missing⟩
    · obtain ⟨binding, here⟩ := Place.exists_here row col
      obtain ⟨body, inJoint, met⟩ := (joint_met here).mpr breaks
      exact ⟨body, (constraint_mem_regions isOuter).mpr (.inr ⟨joint, listed, inJoint⟩), binding, met⟩
    · obtain ⟨binding, here⟩ := Place.exists_here row col
      exact ⟨_, (constraint_mem_regions isOuter).mpr (.inl rfl), binding, (none_met here).mpr missing⟩

/-- The walls are aligned where no joint is broken. -/
theorem aligned_iff_joints : world.sheet.Aligned ↔ ∀ joint ∈ joints, ∀ row col, ¬ joint.Breaks world row col := by
  have zero : (Cell.of 0 0).row.val = 0 ∧ (Cell.of 0 0).col.val = 0 := by decide
  have right : (Cell.of 0 1).row.val = 0 ∧ (Cell.of 0 1).col.val = 1 := by decide
  have down : (Cell.of 1 0).row.val = 1 ∧ (Cell.of 1 0).col.val = 0 := by decide
  have across : (Cell.of 1 1).row.val = 1 ∧ (Cell.of 1 1).col.val = 1 := by decide
  simp only [joints, List.forall_mem_cons, List.not_mem_nil, false_imp_iff, implies_true, and_true, Joint.Breaks,
    zero, right, down, across, Int.add_zero, not_and, not_not, Plane.Sheet.Aligned, Plane.Sheet.Level,
    Plane.Sheet.swap, World.sheet]
  constructor
  · intro aligned
    obtain ⟨level, upright⟩ := aligned
    exact ⟨fun r c here next free => (level r c here next free).1,
      fun r c here next free => (level r c here next free).2,
      fun r c here next free => (upright c r here next free).1,
      fun r c here next free => (upright c r here next free).2⟩
  · intro parts
    obtain ⟨above, below, before, after⟩ := parts
    exact ⟨fun r c here next free => ⟨above r c here next free, below r c here next free⟩,
      fun c r here next free => ⟨before r c here next free, after r c here next free⟩⟩

theorem negative_regionRoles {head : Atom} {body : List Literal} (statement : .rule head body ∈ regionRoles)
    {literal : Literal} (member : literal ∈ body) (negative : ∀ atom, literal ≠ .holds atom) :
    literal = .fails (.cell Relation.wallLeft .here) ∨ literal = .fails (.cell Relation.wallTop .here) := by
  have holds {atom : Atom} (same : literal = .holds atom) {claim : Prop} : claim := absurd same (negative atom)
  rcases rule_mem_regionRoles.mp statement with ⟨_, rfl⟩ | ⟨_, _, _, rfl⟩ | ⟨_, _, _, rfl⟩ | ⟨_, _, _, rfl⟩ <;>
    simp only [List.mem_cons, List.not_mem_nil, or_false] at member
  · rcases member with same | same | same <;> exact holds same
  · rcases member with same | same | same | same
    · exact holds same
    · exact holds same
    · exact .inr same
    · exact holds same
  · rcases member with same | same | same | same
    · exact holds same
    · exact holds same
    · exact .inl same
    · exact holds same
  · rcases member with same | same | same | same | same
    · exact holds same
    · exact .inl same
    · exact .inr same
    · exact holds same
    · exact holds same

theorem existsUnique_regions (isOuter : Borders rows cols outer) (given : World) :
    ∃! world, (outer ++ rectangularRegions false).Model given world := by
  have fixed : ∀ relation ∈ [Relation.grid, Relation.wallLeft, Relation.wallTop], relation ∉ roleNames := by decide
  -- roles rest on walls, which borders take from the grid alone
  have stratified : (outer ++ rectangularRegions false).Stratified fun relation =>
      if relation ∈ roleNames then 1 else 0 := by
    refine ⟨fun head body statement atom member => ?_, fun head body statement literal member negative => ?_⟩
    · rcases (rule_mem_regions isOuter).mp statement with ⟨border, listed, rfl, rfl⟩ | inRoles
      · cases List.mem_singleton.mp member
        simp only [Atom.cell, fixed Relation.grid (by simp), if_false, Nat.zero_le]
      · obtain ⟨role, isRole, rfl⟩ := role_of_mem inRoles
        simp only [Atom.cell, isRole, if_true]
        split <;> omega
    · intro relation looked
      rcases (rule_mem_regions isOuter).mp statement with ⟨border, listed, rfl, rfl⟩ | inRoles
      · exact absurd (List.mem_singleton.mp member) (negative _)
      · obtain ⟨role, isRole, rfl⟩ := role_of_mem inRoles
        have isWall : relation ∈ [Relation.grid, Relation.wallLeft, Relation.wallTop] := by
          rcases negative_regionRoles inRoles member negative with rfl | rfl <;>
            simp [List.mem_singleton.mp looked, Atom.cell]
        simp only [Atom.cell, isRole, fixed relation isWall, if_true, if_false, Nat.zero_lt_one]
  exact stratified.existsUnique_model given

/-- A constraint is broken exactly if the walls are not aligned, as each cell has its role where they are. -/
theorem violated_iff_aligned (tall : rows.val = board.rows) (wide : cols.val = board.cols)
    (isOuter : Borders rows cols outer)
    (model : (outer ++ rectangularRegions false).Model (regionFacts board) world) :
    (outer ++ rectangularRegions false).Violated world ↔ ¬ board.sheet.Aligned := by
  have same := sheet_of_model tall wide isOuter model
  have roles := regions_roles isOuter model
  have counted : ∀ row col, board.sheet.grid row col → 0 ≤ row ∧ 0 ≤ col := by
    intro row col covers
    obtain ⟨cell, inside, rfl, rfl⟩ := covers
    have bounds := Board.contains_iff.mp inside
    exact ⟨bounds.1.1, bounds.2.1⟩
  rw [violated_regions isOuter (regions_shows isOuter model), same]
  constructor
  · intro broken aligned
    rcases broken with ⟨joint, listed, row, col, breaks⟩ | ⟨row, col, onGrid, missing⟩
    · rw [← same] at aligned
      exact aligned_iff_joints.mp aligned joint listed row col breaks
    · rw [same] at roles
      simp only [roleNames, List.forall_mem_cons] at missing
      have role := roles.covers board.sheet_fenced aligned counted onGrid
      tauto
  · intro unaligned
    rw [← same, aligned_iff_joints] at unaligned
    push Not at unaligned
    exact .inl unaligned

/-- Each group has a box around it, which has more cells than the group unless the group fills it. -/
theorem exists_boxes (bounded : board.Bounded) {groups : List (List Cell)}
    (grouped : board.components .walled = .ok groups) : ∀ group ∈ groups, ∃ box, Board.box? group = .ok (some box) ∧
      ((group.length : Int) < box.height.val * box.width.val ↔ ¬ Board.Fills group) := by
  intro group member
  have isGroup := (Board.IsGroup.of_components Adjacency.fixed_walled grouped).1 group member
  obtain ⟨box, boxed, _, _, atMost, filled⟩ := Board.box_ok bounded isGroup.increasing isGroup.inhabited
    fun cell inside => Board.contains_of_isShaded (isGroup.shaded cell inside)
  exact ⟨box, boxed, by rw [← filled]; omega⟩

theorem bounded_full (tall : rows.val = board.rows) (wide : cols.val = board.cols) : board.full.Bounded :=
  ⟨by have := rows.inRange; change board.rows ≤ _; omega, by have := cols.inRange; change board.cols ≤ _; omega⟩

/-- A constraint is broken exactly if some group is smaller than its box, or a wall parts it. -/
theorem violated_iff_groups (tall : rows.val = board.rows) (wide : cols.val = board.cols)
    (isOuter : Borders rows cols outer) {groups : List (List Cell)}
    (grouped : board.full.components .walled = .ok groups)
    (model : (outer ++ rectangularRegions false).Model (regionFacts board) world) :
    (outer ++ rectangularRegions false).Violated world ↔ ∃ group ∈ groups,
      (∃ box, Board.box? group = .ok (some box) ∧ (group.length : Int) < box.height.val * box.width.val) ∨
      board.Parted group := by
  rw [violated_iff_aligned tall wide isOuter model, Board.aligned_iff grouped]
  push Not
  refine exists_congr fun group => and_congr_right fun member => ?_
  obtain ⟨box, boxed, smaller⟩ := exists_boxes (bounded_full tall wide) grouped group member
  simp only [boxed, Except.ok.injEq, Option.some.injEq, exists_eq_left', smaller]
  tauto

/-- With the border walls, the rules about regions have one model. The walls enclose groups of cells, and a
constraint is broken exactly if one of these has fewer cells than the box around it, or a wall between two of
its own cells. -/
theorem regions_agree (board : Board) (rows cols : Coord) (tall : rows.val = board.rows)
    (wide : cols.val = board.cols) :
    ∃ outer groups, walls rows cols = .ok outer ∧ board.full.components .walled = .ok groups ∧
      (∀ group ∈ groups, ∃ box, Board.box? group = .ok (some box)) ∧
      (∃! world, (outer ++ rectangularRegions false).Model (regionFacts board) world) ∧
      ∀ world, (outer ++ rectangularRegions false).Model (regionFacts board) world →
        ((outer ++ rectangularRegions false).Violated world ↔ ∃ group ∈ groups,
          (∃ box, Board.box? group = .ok (some box) ∧ (group.length : Int) < box.height.val * box.width.val) ∨
          board.Parted group) := by
  have sizes := board.positive
  have bounded := bounded_full tall wide
  obtain ⟨outer, built, isOuter⟩ := walls_ok rows cols (by omega) (by omega)
  obtain ⟨groups, grouped⟩ := bounded.exists_components Adjacency.fixed_walled
  refine ⟨outer, groups, built, grouped, fun group member => ?_, existsUnique_regions isOuter _,
    fun world model => violated_iff_groups tall wide isOuter grouped model⟩
  obtain ⟨box, boxed, _⟩ := exists_boxes bounded grouped group member
  exact ⟨box, boxed⟩

/-- Four cells, where a wall juts in between the upper two. -/
def juttingBoard : Board := (Board.ofShading 2 2 bentBoard.positive fun _ _ => true).addWall (.of 0 0) (.of 0 1)

theorem regions_agree_jutting : ∃ outer world, walls (.of 2) (.of 2) = .ok outer ∧
    (outer ++ rectangularRegions false).Model (regionFacts juttingBoard) world ∧
    (outer ++ rectangularRegions false).Violated world := by
  obtain ⟨outer, groups, built, grouped, _, ⟨world, model, _⟩, agree⟩ :=
    regions_agree juttingBoard (.of 2) (.of 2) (by decide) (by decide)
  have found : juttingBoard.full.components .walled = .ok [[.of 0 0, .of 0 1, .of 1 0, .of 1 1]] := by
    decide +kernel
  have same : groups = [[.of 0 0, .of 0 1, .of 1 0, .of 1 1]] := Except.ok.inj (grouped.symm.trans found)
  refine ⟨outer, world, built, model, (agree world model).mpr ?_⟩
  rw [same]
  exact ⟨_, List.mem_singleton_self _, .inr ⟨.of 0 0, by decide, .of 0 1, by decide, by decide, by decide⟩⟩

end Template

end GridPuzzle
