import GridPuzzle.Template.Neighbors
import GridPuzzle.Proofs.Board.Classes
import GridPuzzle.Proofs.Template.Course

/-!
Neighbors by rule. The rules of a kind join a cell to others on the grid, and those of a gated kind name only
one of the two cells and turn the pair around. What they join is what the board calls neighbors, or what a
path joins.
-/
namespace GridPuzzle.Template

variable {board : Board} {kind : Adjacency} {includeSelf : Bool} {given world : World} {binding : Binding}
  {row col row' col' : Int}

def rowsApart : Expression := distance Place.here.row Place.other.row

def colsApart : Expression := distance Place.here.col Place.other.col

def stepPlace (side : Side) : Place := Place.here.step side.offset

def sideRule : Place × List Test := (.other, [.compare .eq (.add rowsApart colsApart) (Term.int 1)])

def cornerRule : Place × List Test :=
  (.other, [.compare .eq rowsApart (Term.int 1), .compare .eq colsApart (Term.int 1)])

def pathRules (relation : String) : List (Place × List Test) :=
  Side.all.map fun side => (stepPlace side, [.holds (side.fact relation .here)])

/-- The rules that join a cell to another one, each with the place of the other cell and what it asks for
besides the grid. -/
def joinRules : Adjacency → List (Place × List Test)
  | .side => [sideRule]
  | .corner => [cornerRule]
  | .around => [sideRule, cornerRule]
  | .walled => Board.wallSides.map fun (side, wall) => (stepPlace side, [.fails (.cell wall (stepPlace side))])
  | .path => pathRules Relation.passes
  | .directedPath => pathRules Relation.leaves

/-- The rules look at walls or at a path from one of the two cells only. -/
def Gated (kind : Adjacency) : Prop := kind ∈ [.walled, .path, .directedPath]

instance decidableGated (kind : Adjacency) : Decidable (Gated kind) := inferInstanceAs (Decidable (kind ∈ _))

theorem rule_mem_neighbors {head : Atom} {body : List Literal} :
    .rule head body ∈ (neighbors kind includeSelf).statements ↔
      (∃ rule ∈ joinRules kind, head = kind.joins .here rule.1 ∧
        body = .test (onGrid .here) :: .test (onGrid rule.1) :: rule.2.map .test) ∨
      (Gated kind ∧ head = kind.joins .here .other ∧ body = [.holds (kind.joins .other .here)]) ∨
      includeSelf = true ∧ head = kind.joins .here .here ∧ body = [.test (onGrid .here)] := by
  cases kind <;> cases includeSelf <;>
    simp [neighbors, joins, joinRules, sideRule, cornerRule, pathRules, Gated, joinedWhen, oneStepApart,
      diagonallyApart, rowsApart, colsApart, symmetric, joinedWithoutWall, joinedByPath, stepPlace,
      Board.wallSides, Side.all, Literal.fails, Literal.holds, or_assoc]

theorem fact_not_mem_neighbors {atom : Atom} : .fact atom ∉ (neighbors kind includeSelf).statements := by
  cases kind <;> cases includeSelf <;>
    simp [neighbors, joins, joinedWhen, symmetric, joinedWithoutWall, joinedByPath]

theorem defines_neighbors {relation : String} (defines : (neighbors kind includeSelf).Defines relation) :
    relation = kind.relation := by
  rcases defines with ⟨atom, statement, _⟩ | ⟨head, body, statement, rfl⟩
  · exact absurd statement fact_not_mem_neighbors
  · rcases rule_mem_neighbors.mp statement with ⟨rule, _, rfl, _⟩ | ⟨_, rfl, _⟩ | ⟨_, rfl, _⟩ <;> rfl

theorem place_of_joinRule {rule : Place × List Test} (listed : rule ∈ joinRules kind) :
    rule.1 = .other ∨ ∃ offset, rule.1 = Place.here.step offset := by
  have single : ∀ rule ∈ [sideRule, cornerRule], rule.1 = .other := by simp [sideRule, cornerRule]
  have stepped (relation : String) : ∀ rule ∈ pathRules relation, ∃ offset, rule.1 = Place.here.step offset := by
    simp [pathRules, stepPlace]
  cases kind with
  | side => exact .inl (single rule (by simp_all [joinRules]))
  | corner => exact .inl (single rule (by simp_all [joinRules]))
  | around => exact .inl (single rule listed)
  | walled =>
    obtain ⟨place, _, rfl⟩ := List.mem_map.mp listed
    exact .inr ⟨_, rfl⟩
  | path => exact .inr (stepped _ rule listed)
  | directedPath => exact .inr (stepped _ rule listed)

/-- Conditions are tests that hold, comparisons or tests that there is no wall. -/
theorem condition_of_joinRule {rule : Place × List Test} (listed : rule ∈ joinRules kind) {condition : Test}
    (member : condition ∈ rule.2) : (∃ atom, condition = .holds atom) ∨
      ∀ relation ∈ condition.relations, relation ∈ [Relation.wallLeft, Relation.wallTop] := by
  have compared : ∀ rule ∈ [sideRule, cornerRule], ∀ condition ∈ rule.2, condition.relations = [] := by
    simp [sideRule, cornerRule, Test.relations]
  have single (isCompared : rule ∈ [sideRule, cornerRule]) : ∀ relation ∈ condition.relations,
      relation ∈ [Relation.wallLeft, Relation.wallTop] := by
    simp [compared rule isCompared condition member]
  have passed {relation : String} (stepped : rule ∈ pathRules relation) : ∃ atom, condition = .holds atom := by
    obtain ⟨side, _, rfl⟩ := List.mem_map.mp stepped
    exact ⟨_, List.mem_singleton.mp member⟩
  cases kind with
  | side => exact .inr (single (by simp_all [joinRules]))
  | corner => exact .inr (single (by simp_all [joinRules]))
  | around => exact .inr (single listed)
  | walled =>
    obtain ⟨place, isSide, rfl⟩ := List.mem_map.mp listed
    have walls : ∀ place ∈ Board.wallSides, place.2 ∈ [Relation.wallLeft, Relation.wallTop] := by decide
    rw [List.mem_singleton.mp member]
    exact .inr fun relation looked => List.mem_singleton.mp looked ▸ walls place isSide
  | path => exact .inl (passed listed)
  | directedPath => exact .inl (passed listed)

/-- Negation looks at walls only. -/
theorem existsUnique_neighbors (kind : Adjacency) (includeSelf : Bool) (given : World) :
    ∃! world, (neighbors kind includeSelf).Model given world := by
  refine Program.existsUnique_model_of_lower [Relation.wallLeft, Relation.wallTop] ?_ ?_ given
  · intro relation lower defines
    have apart : kind.relation ∉ [Relation.wallLeft, Relation.wallTop] := by cases kind <;> decide
    exact apart (defines_neighbors defines ▸ lower)
  · intro head body statement literal member negative
    rcases rule_mem_neighbors.mp statement with ⟨rule, listed, _, rfl⟩ | ⟨_, _, rfl⟩ | ⟨_, _, rfl⟩
    · rcases List.mem_cons.mp member with rfl | member
      · exact absurd rfl (negative _)
      rcases List.mem_cons.mp member with rfl | member
      · exact absurd rfl (negative _)
      obtain ⟨condition, asked, rfl⟩ := List.mem_map.mp member
      rcases condition_of_joinRule listed asked with ⟨atom, rfl⟩ | walls
      · exact absurd rfl (negative _)
      · exact walls
    · exact absurd (List.mem_singleton.mp member) (negative _)
    · exact absurd (List.mem_singleton.mp member) (negative _)

/-- Some rule joins the first cell to the second. -/
def Direct (world : World) (kind : Adjacency) (row col row' col' : Int) : Prop :=
  ∃ rule ∈ joinRules kind, ∃ binding, Place.Here binding row col ∧ rule.1.Stands binding row' col' ∧
    ∀ condition ∈ rule.2, condition.Holds world binding

/-- The two cells are joined from one of them, or are the same cell where this is asked for. -/
def Joining (world : World) (board : Board) (kind : Adjacency) (includeSelf : Bool) (row col row' col' : Int) : Prop :=
  (board.Covers row col ∧ board.Covers row' col') ∧
    (Direct world kind row col row' col' ∨ (Gated kind ∧ Direct world kind row' col' row col) ∨
      (includeSelf = true ∧ row = row' ∧ col = col'))

theorem Joining.turned (gated : Gated kind) (joining : Joining world board kind includeSelf row col row' col') :
    Joining world board kind includeSelf row' col' row col := by
  refine ⟨joining.1.symm, ?_⟩
  rcases joining.2 with direct | ⟨_, direct⟩ | ⟨self, rows, cols⟩
  · exact .inr (.inl ⟨gated, direct⟩)
  · exact .inl direct
  · exact .inr (.inr ⟨self, rows.symm, cols.symm⟩)

section Model

variable (shows : world.Shows board none) (model : (neighbors kind includeSelf).Model given world)
include shows

/-- The other cell of a rule is any cell of the grid, or the one a step away. -/
theorem stands_of_joinRule {rule : Place × List Test} (listed : rule ∈ joinRules kind)
    (here : Place.Here binding row col) (isOnGrid : (onGrid rule.1).Holds world binding) :
    ∃ row' col', board.Covers row' col' ∧ rule.1.Stands binding row' col' := by
  rcases place_of_joinRule listed with isOther | ⟨offset, stepped⟩
  · rw [isOther] at isOnGrid ⊢
    obtain ⟨row', col', covers, other⟩ := shows.onGrid_other.mp isOnGrid
    exact ⟨row', col', covers, other.stands⟩
  · have stands := here.step_stands offset
    rw [stepped] at isOnGrid ⊢
    exact ⟨_, _, shows.grid_cell.mp ((holds_cell stands).mp isOnGrid), stands⟩

include model

theorem world_of_direct (covers : board.Covers row col) (covers' : board.Covers row' col')
    (direct : Direct world kind row col row' col') : world (.pair kind.relation row col row' col') := by
  obtain ⟨rule, listed, binding, here, stands, met⟩ := direct
  refine (model.iff_supported _).mpr (.inr (.inr ⟨_, _, rule_mem_neighbors.mpr (.inl ⟨rule, listed, rfl, rfl⟩),
    binding, (pair_denotes here.stands stands).mpr rfl, ?_⟩))
  rw [List.forall_mem_cons, List.forall_mem_cons, List.forall_mem_map]
  exact ⟨(holds_cell here.stands).mpr (shows.grid_cell.mpr covers),
    (holds_cell stands).mpr (shows.grid_cell.mpr covers'), met⟩

theorem world_of_joining (joining : Joining world board kind includeSelf row col row' col') :
    world (.pair kind.relation row col row' col') := by
  obtain ⟨⟨covers, covers'⟩, direct | ⟨gated, direct⟩ | ⟨self, rfl, rfl⟩⟩ := joining
  · exact world_of_direct shows model covers covers' direct
  · have turned := world_of_direct shows model covers' covers direct
    obtain ⟨binding, here, other⟩ := Place.exists_here_other row col row' col'
    refine (model.iff_supported _).mpr (.inr (.inr ⟨_, _, rule_mem_neighbors.mpr (.inr (.inl ⟨gated, rfl, rfl⟩)),
      binding, (pair_denotes here.stands other.stands).mpr rfl, List.forall_mem_singleton.mpr ?_⟩))
    exact (holds_pair other.stands here.stands).mpr turned
  · obtain ⟨binding, here⟩ := Place.exists_here row col
    refine (model.iff_supported _).mpr (.inr (.inr ⟨_, _, rule_mem_neighbors.mpr (.inr (.inr ⟨self, rfl, rfl⟩)),
      binding, (pair_denotes here.stands here.stands).mpr rfl, List.forall_mem_singleton.mpr ?_⟩))
    exact (holds_cell here.stands).mpr (shows.grid_cell.mpr covers)

/-- In a model, the relation of a kind holds of just the pairs that are joined. -/
theorem joined_iff (fresh : ∀ fact, given fact → fact.relation ≠ kind.relation) (fact : Fact)
    (same : fact.relation = kind.relation) : world fact ↔ ∃ row col row' col',
      fact = .pair kind.relation row col row' col' ∧ Joining world board kind includeSelf row col row' col' := by
  constructor
  swap
  · rintro ⟨row, col, row', col', rfl, joining⟩
    exact world_of_joining shows model joining
  intro holds
  revert same
  refine model.induction (fun fact => fact.relation = kind.relation → ∃ row col row' col',
    fact = .pair kind.relation row col row' col' ∧ Joining world board kind includeSelf row col row' col')
    ?_ ?_ ?_ fact holds
  · intro fact isGiven same
    exact absurd same (fresh fact isGiven)
  · intro atom statement
    exact absurd statement fact_not_mem_neighbors
  · intro head body statement binding met before fact denoted _
    rcases rule_mem_neighbors.mp statement with ⟨rule, listed, rfl, rfl⟩ | ⟨gated, rfl, rfl⟩ | ⟨self, rfl, rfl⟩
    · rw [List.forall_mem_cons, List.forall_mem_cons, List.forall_mem_map] at met
      obtain ⟨row, col, covers, here⟩ := shows.onGrid_here.mp met.1
      obtain ⟨row', col', covers', stands⟩ := stands_of_joinRule shows listed here met.2.1
      exact ⟨row, col, row', col', (pair_denotes here.stands stands).mp denoted, ⟨covers, covers'⟩,
        .inl ⟨rule, listed, binding, here, stands, met.2.2⟩⟩
    · obtain ⟨premise, premiseDenoted, _, earlier⟩ := before _ (List.mem_singleton_self _)
      obtain ⟨row, col, row', col', rfl, joining⟩ := earlier premiseDenoted.1
      have values : StandAll binding (Place.other.args ++ Place.here.args)
          [binding "R1", binding "C1", binding "R", binding "C"] :=
        .cons (Term.stands_var "R1") (.cons (Term.stands_var "C1") (here_args binding))
      have read := (Atom.denotes_iff values).mp premiseDenoted
      simp only [Fact.pair, Fact.mk.injEq, List.cons.injEq, true_and, and_true] at read
      obtain ⟨rows, cols, rows', cols'⟩ := read
      have here : Place.Here binding row' col' := ⟨rows'.symm, cols'.symm⟩
      have other : Place.Other binding row col := ⟨rows.symm, cols.symm⟩
      exact ⟨row', col', row, col, (pair_denotes here.stands other.stands).mp denoted, joining.turned gated⟩
    · obtain ⟨row, col, covers, here⟩ := shows.onGrid_here.mp (met _ (List.mem_singleton_self _))
      exact ⟨row, col, row, col, (pair_denotes here.stands here.stands).mp denoted, ⟨covers, covers⟩,
        .inr (.inr ⟨self, rfl, rfl⟩)⟩

end Model

theorem exists_other_iff {property : Binding → Prop} {meaning : Prop} (met : ∀ binding, Place.Here binding row col →
      Place.Other binding row' col' → (property binding ↔ meaning)) :
    (∃ binding, Place.Here binding row col ∧ Place.other.Stands binding row' col' ∧ property binding) ↔ meaning := by
  constructor
  · intro found
    obtain ⟨binding, here, stands, holds⟩ := found
    have rows := (Term.stands_var "R1" _).mp ((stands.1 _).mpr rfl)
    have cols := (Term.stands_var "C1" _).mp ((stands.2 _).mpr rfl)
    have other : Place.Other binding row' col' := ⟨rows.symm, cols.symm⟩
    exact (met binding here other).mp holds
  · intro holds
    obtain ⟨binding, here, other⟩ := Place.exists_here_other row col row' col'
    exact ⟨binding, here, other.stands, (met binding here other).mpr holds⟩

theorem exists_step_iff {offset : Cell} {property : Binding → Prop} {meaning : Prop}
    (met : ∀ binding, Place.Here binding row col → (Place.here.step offset).Stands binding row' col' →
      (property binding ↔ meaning)) :
    (∃ binding, Place.Here binding row col ∧ (Place.here.step offset).Stands binding row' col' ∧ property binding) ↔
      (row' = row + offset.row.val ∧ col' = col + offset.col.val) ∧ meaning := by
  constructor
  · intro found
    obtain ⟨binding, here, stands, holds⟩ := found
    have stepped := here.step_stands offset
    have rows := (stepped.1 _).mp ((stands.1 _).mpr rfl)
    have cols := (stepped.2 _).mp ((stands.2 _).mpr rfl)
    exact ⟨⟨Value.num.inj rows, Value.num.inj cols⟩, (met binding here stands).mp holds⟩
  · intro both
    obtain ⟨⟨rfl, rfl⟩, holds⟩ := both
    obtain ⟨binding, here⟩ := Place.exists_here row col
    exact ⟨binding, here, here.step_stands offset, (met binding here (here.step_stands offset)).mpr holds⟩

theorem distance_stands {first second : Term} {a b : Int} (stands : first.Stands binding (.num a))
    (stands' : second.Stands binding (.num b)) : (distance first second).Stands binding (.num (a - b).natAbs) :=
  Expression.stands_abs (Expression.stands_sub stands stands')

theorem direct_side : Direct world .side row col row' col' ↔ (row - row').natAbs + (col - col').natAbs = 1 := by
  simp only [Direct, joinRules, List.mem_singleton, exists_eq_left]
  refine exists_other_iff fun binding here other => ?_
  have rows := distance_stands here.stands.1 other.stands.1
  have cols := distance_stands here.stands.2 other.stands.2
  have one : (Expression.term (Term.int 1)).Stands binding (.num 1) := Term.stands_int 1
  refine List.forall_mem_singleton.trans ((Test.compare_eq_iff (Expression.stands_add rows cols) one).trans ?_)
  omega

theorem direct_corner : Direct world .corner row col row' col' ↔
    (row - row').natAbs = 1 ∧ (col - col').natAbs = 1 := by
  simp only [Direct, joinRules, List.mem_singleton, exists_eq_left]
  refine exists_other_iff fun binding here other => ?_
  have rows := distance_stands here.stands.1 other.stands.1
  have cols := distance_stands here.stands.2 other.stands.2
  have one : (Expression.term (Term.int 1)).Stands binding (.num 1) := Term.stands_int 1
  refine List.forall_mem_cons.trans (and_congr ((Test.compare_eq_iff rows one).trans ?_)
    (List.forall_mem_singleton.trans ((Test.compare_eq_iff cols one).trans ?_)))
  · omega
  · omega

theorem direct_around : Direct world .around row col row' col' ↔
    Direct world .side row col row' col' ∨ Direct world .corner row col row' col' := by
  simp only [Direct, joinRules, List.mem_cons, List.not_mem_nil, or_false, or_and_right, exists_or, exists_eq_left]

theorem direct_walled : Direct world .walled row col row' col' ↔ ∃ place ∈ Board.wallSides,
    (row' = row + place.1.offset.row.val ∧ col' = col + place.1.offset.col.val) ∧
      ¬ world (.cell place.2 row' col') := by
  simp only [Direct, joinRules, List.mem_map, exists_exists_and_eq_and]
  refine exists_congr fun place => and_congr_right fun _ => exists_step_iff fun binding here stands => ?_
  exact List.forall_mem_singleton.trans (fails_cell stands)

theorem direct_path {relation : String} (listed : joinRules kind = pathRules relation) :
    Direct world kind row col row' col' ↔ ∃ side : Side,
      (row' = row + side.offset.row.val ∧ col' = col + side.offset.col.val) ∧
        world (.through relation row col side) := by
  simp only [Direct, listed, pathRules, List.mem_map, Side.mem_all, true_and, exists_exists_eq_and]
  refine exists_congr fun side => exists_step_iff fun binding here stands => ?_
  exact List.forall_mem_singleton.trans (holds_side here.stands side)

theorem walled_iff (walls : ∀ fact : Fact, fact.relation ∈ [Relation.wallLeft, Relation.wallTop] →
    (world fact ↔ board.wallFacts fact)) {a b : Cell} :
    Direct world .walled a.row.val a.col.val b.row.val b.col.val ↔
      (∃ place ∈ Board.wallSides, place.1.neighbor a = .ok b) ∧ board.isWalled a b = false := by
  have wall_iff {place : Side × String} (member : place ∈ Board.wallSides) (beside : place.1.neighbor a = .ok b) :
      world (.cell place.2 b.row.val b.col.val) ↔ board.isWalled a b = true := by
    rw [walls _ (by rcases List.mem_pair.mp member with rfl | rfl <;> simp)]
    exact Board.wallFacts_cell member beside
  rw [direct_walled]
  constructor
  · rintro ⟨place, member, moved, free⟩
    have beside : place.1.neighbor a = .ok b := Cell.shift_eq_ok.mpr moved
    rw [wall_iff member beside, Bool.not_eq_true] at free
    exact ⟨⟨place, member, beside⟩, free⟩
  · rintro ⟨⟨place, member, beside⟩, free⟩
    refine ⟨place, member, Cell.shift_eq_ok.mp beside, ?_⟩
    rw [wall_iff member beside, free]
    exact Bool.false_ne_true

/-- Two cells of the board are joined from one of them if they are neighbors. -/
theorem direct_iff_adjacent (fixed : kind.Fixed) (walls : ∀ fact : Fact,
      fact.relation ∈ [Relation.wallLeft, Relation.wallTop] → (world fact ↔ board.wallFacts fact)) {a b : Cell}
    (inside : board.contains a = true ∧ board.contains b = true) :
    (Direct world kind a.row.val a.col.val b.row.val b.col.val ∨
        Gated kind ∧ Direct world kind b.row.val b.col.val a.row.val a.col.val) ↔
      board.adjacent a b kind = .ok true := by
  have open_ {kind : Adjacency} (free : kind = .side ∨ kind = .corner ∨ kind = .around) : ¬ Gated kind := by
    rcases free with rfl | rfl | rfl <;> decide
  rw [Board.adjacent_iff fixed, and_iff_right inside]
  cases kind with
  | side =>
    rw [direct_side, or_iff_left fun both => open_ (.inl rfl) both.1]
    exact (and_iff_left nofun).symm
  | corner =>
    rw [direct_corner, or_iff_left fun both => open_ (.inr (.inl rfl)) both.1]
    exact (and_iff_left nofun).symm
  | around =>
    rw [direct_around, direct_side, direct_corner, or_iff_left fun both => open_ (.inr (.inr rfl)) both.1]
    exact (and_iff_left nofun).symm
  | walled =>
    rw [walled_iff walls, walled_iff walls, Board.isWalled_symm board b a]
    constructor
    · rintro (⟨⟨place, member, beside⟩, free⟩ | ⟨_, ⟨place, member, beside⟩, free⟩)
      · exact ⟨Board.near_of_neighbor member beside, fun _ => free⟩
      · exact ⟨(Board.near_of_neighbor member beside).symm, fun _ => free⟩
    · rintro ⟨near, free⟩
      obtain ⟨place, member, beside | beside⟩ := Board.neighbor_of_near near
      · exact .inl ⟨⟨place, member, beside⟩, free rfl⟩
      · exact .inr ⟨by decide, ⟨place, member, beside⟩, free rfl⟩
  | path => exact absurd rfl fixed.1
  | directedPath => exact absurd rfl fixed.2

/-- The path's fact at the first cell points at the second. -/
def PointsAt (paths : World) (relation : String) (a b : Cell) : Prop :=
  ∃ side : Side, side.neighbor a = .ok b ∧ paths (.through relation a.row.val a.col.val side)

/-- The pairs that a path joins; on request each cell is its own neighbor too. -/
def pathFacts (board : Board) (kind : Adjacency) (relation : String) (paths : World) (includeSelf : Bool) : World :=
  fun fact => ∃ a b : Cell, (board.contains a = true ∧ board.contains b = true) ∧
    (PointsAt paths relation a b ∨ PointsAt paths relation b a ∨ includeSelf = true ∧ a = b) ∧
    fact = .pair kind.relation a.row.val a.col.val b.row.val b.col.val

/-- The path kinds, each with the relation of the path. -/
def pathKinds : List (Adjacency × String) := [(.path, Relation.passes), (.directedPath, Relation.leaves)]

theorem joined_cells (shows : world.Shows board none) (model : (neighbors kind includeSelf).Model given world)
    (fresh : ∀ fact, given fact → fact.relation ≠ kind.relation) (fact : Fact) (same : fact.relation = kind.relation) :
    world fact ↔ ∃ a b : Cell, (board.contains a = true ∧ board.contains b = true) ∧
      ((Direct world kind a.row.val a.col.val b.row.val b.col.val ∨
        Gated kind ∧ Direct world kind b.row.val b.col.val a.row.val a.col.val) ∨ includeSelf = true ∧ a = b) ∧
      fact = .pair kind.relation a.row.val a.col.val b.row.val b.col.val := by
  rw [joined_iff shows model fresh fact same]
  constructor
  · rintro ⟨row, col, row', col', rfl, ⟨⟨a, inside, rfl, rfl⟩, b, inside', rfl, rfl⟩, joins⟩
    refine ⟨a, b, ⟨inside, inside'⟩, ?_, rfl⟩
    rcases joins with direct | turned | ⟨self, rows, cols⟩
    · exact .inl (.inl direct)
    · exact .inl (.inr turned)
    · exact .inr ⟨self, Cell.ext rows cols⟩
  · rintro ⟨a, b, inside, joins, rfl⟩
    refine ⟨_, _, _, _, rfl, ⟨Board.covers_cell.mpr inside.1, Board.covers_cell.mpr inside.2⟩, ?_⟩
    rcases joins with (direct | turned) | ⟨self, rfl⟩
    · exact .inl direct
    · exact .inr (.inl turned)
    · exact .inr (.inr ⟨self, rfl, rfl⟩)

theorem shows_grid {others : World} (apart : ∀ fact, others fact → fact.relation ≠ Relation.grid) :
    World.Shows (board.gridFacts.join others) board none :=
  ⟨fun fact same => or_iff_left fun other => apart fact other same, nofun⟩

theorem shows_neighbors (shows : given.Shows board none) (model : (neighbors kind includeSelf).Model given world) :
    world.Shows board none := by
  refine shows.of_model model (fun defines => ?_) nofun
  have apart : Relation.grid ≠ kind.relation := by cases kind <;> decide
  exact apart (defines_neighbors defines)

/-- Over the walls of a board, the rules join just its neighbors. -/
theorem neighbors_fixed (fixed : kind.Fixed)
    (model : (neighbors kind includeSelf).Model (board.gridFacts.join board.wallFacts) world) (fact : Fact)
    (same : fact.relation = kind.relation) : world fact ↔ board.adjacencyFacts kind includeSelf fact := by
  have wall {fact : Fact} (isWall : board.wallFacts fact) : fact.relation ∈ [Relation.wallLeft, Relation.wallTop] := by
    rcases Board.wallFacts_relation isWall with same | same <;> simp [same]
  have apart : Relation.grid ∉ [Relation.wallLeft, Relation.wallTop] ∧
      kind.relation ∉ [Relation.grid, Relation.wallLeft, Relation.wallTop] := by cases kind <;> decide
  have shows := shows_neighbors (shows_grid fun fact isWall same => apart.1 (same ▸ wall isWall)) model
  have walls (fact : Fact) (isWall : fact.relation ∈ [Relation.wallLeft, Relation.wallTop]) :
      world fact ↔ board.wallFacts fact := by
    rw [model.iff_given fun defines => apart.2 (defines_neighbors defines ▸ List.mem_cons_of_mem _ isWall)]
    exact or_iff_right fun isGrid => apart.1 (Board.gridFacts_relation isGrid ▸ isWall)
  have fresh (fact : Fact) (isGiven : (board.gridFacts.join board.wallFacts) fact) : fact.relation ≠ kind.relation := by
    intro same
    rcases isGiven with isGrid | isWall
    · exact apart.2 (same ▸ List.mem_cons.mpr (.inl (Board.gridFacts_relation isGrid)))
    · exact apart.2 (same ▸ List.mem_cons_of_mem _ (wall isWall))
  rw [joined_cells shows model fresh fact same]
  refine exists_congr fun a => exists_congr fun b => ?_
  constructor
  · rintro ⟨inside, joins | ⟨self, rfl⟩, isPair⟩
    · exact ⟨.inl ((direct_iff_adjacent fixed walls inside).mp joins), isPair⟩
    · exact ⟨.inr ⟨self, rfl, inside.1⟩, isPair⟩
  · rintro ⟨adjacent | ⟨self, rfl, inside⟩, isPair⟩
    · have inside := ((Board.adjacent_iff fixed).mp adjacent).1
      exact ⟨inside, .inl ((direct_iff_adjacent fixed walls inside).mpr adjacent), isPair⟩
    · exact ⟨⟨inside, inside⟩, .inr ⟨self, rfl⟩, isPair⟩

/-- Over the facts of a path, the rules join just the cells one of which points at the other. -/
theorem neighbors_path {relation : String} (listed : (kind, relation) ∈ pathKinds) {paths : World}
    (along : ∀ fact, paths fact → fact.relation = relation)
    (model : (neighbors kind includeSelf).Model (board.gridFacts.join paths) world) (fact : Fact)
    (same : fact.relation = kind.relation) :
    world fact ↔ pathFacts board kind relation paths includeSelf fact := by
  have known : relation ≠ Relation.grid ∧ kind.relation ∉ [Relation.grid, relation] ∧ Gated kind ∧
      joinRules kind = pathRules relation := by
    rcases List.mem_pair.mp listed with same | same <;> cases same <;> decide
  obtain ⟨apart, free, gated, rules⟩ := known
  have shows := shows_neighbors (shows_grid fun fact path same => apart ((along fact path).symm.trans same)) model
  have pointing {a b : Cell} : Direct world kind a.row.val a.col.val b.row.val b.col.val ↔
      PointsAt paths relation a b := by
    rw [direct_path rules]
    refine exists_congr fun side => and_congr Cell.shift_eq_ok.symm ?_
    rw [model.iff_given fun defines => free (defines_neighbors defines ▸ by simp [Fact.through])]
    exact or_iff_right fun isGrid => apart (Board.gridFacts_relation isGrid)
  have fresh (fact : Fact) (isGiven : (board.gridFacts.join paths) fact) : fact.relation ≠ kind.relation := by
    rintro same
    rcases isGiven with isGrid | path
    · exact free (by simp [← same, Board.gridFacts_relation isGrid])
    · exact free (by simp [← same, along fact path])
  rw [joined_cells shows model fresh fact same]
  simp only [pointing, and_iff_right gated, or_assoc]
  rfl

/-- For every kind that a board decides, the rules have one model over the grid and the walls, in which the
kind's relation holds of just the neighbors: a symmetric and irreflexive relation between cells that touch. For
the path kinds, over any facts of the path, it holds of the cells of the grid one of which points at the other.
On request each cell is its own neighbor too. -/
theorem neighbors_agree (board : Board) (includeSelf : Bool) :
    (∀ kind : Adjacency, kind.Fixed →
      (∃! world, (neighbors kind includeSelf).Model (board.gridFacts.join board.wallFacts) world) ∧
      (∀ world, (neighbors kind includeSelf).Model (board.gridFacts.join board.wallFacts) world →
        ∀ fact : Fact, fact.relation = kind.relation → (world fact ↔ board.adjacencyFacts kind includeSelf fact)) ∧
      (∀ a b, board.adjacent a b kind = .ok true → board.adjacent b a kind = .ok true) ∧
      (∀ a, board.adjacent a a kind ≠ .ok true) ∧
      ∀ a b, board.adjacent a b kind = .ok true → kind.touches a b = .ok true) ∧
    ∀ kind relation, (kind, relation) ∈ pathKinds → ∀ paths : World,
      (∀ fact, paths fact → fact.relation = relation) →
      (∃! world, (neighbors kind includeSelf).Model (board.gridFacts.join paths) world) ∧
      ∀ world, (neighbors kind includeSelf).Model (board.gridFacts.join paths) world →
        ∀ fact : Fact, fact.relation = kind.relation →
          (world fact ↔ pathFacts board kind relation paths includeSelf fact) := by
  refine ⟨fun kind fixed => ⟨existsUnique_neighbors _ _ _, fun world model => neighbors_fixed fixed model,
    fun a b => Board.adjacent_symm fixed, fun a adjacent => ?_, fun a b adjacent => ?_⟩,
    fun kind relation listed paths along =>
      ⟨existsUnique_neighbors _ _ _, fun world model => neighbors_path listed along model⟩⟩
  · have near := ((Board.adjacent_iff fixed).mp adjacent).2.1
    cases kind <;> simp [Adjacency.Near] at near
  · exact Adjacency.touches_of_near ((Board.adjacent_iff fixed).mp adjacent).2.1

/-- A path that leaves the second cell of a row through its left side. -/
def backward : World := fun fact => fact = .through Relation.leaves 0 1 .left

theorem neighbors_agree_gate :
    (∃ world, (neighbors .walled true).Model (Board.gateBoard.gridFacts.join Board.gateBoard.wallFacts) world ∧
      world (.pair Adjacency.walled.relation 0 0 0 0) ∧ ¬ world (.pair Adjacency.walled.relation 0 0 0 1)) ∧
    ∃ world, (neighbors .directedPath true).Model (Board.gateBoard.gridFacts.join backward) world ∧
      world (.pair Adjacency.directedPath.relation 0 0 0 1) := by
  have ofWalls := (neighbors_agree Board.gateBoard true).1 .walled Adjacency.fixed_walled
  have ofPaths := (neighbors_agree Board.gateBoard true).2 .directedPath Relation.leaves (by decide) backward
    (by rintro _ rfl; rfl)
  obtain ⟨⟨world, model, _⟩, joins, _⟩ := ofWalls
  obtain ⟨⟨world', model', _⟩, joins'⟩ := ofPaths
  refine ⟨⟨world, model, ?_, ?_⟩, world', model', ?_⟩
  · rw [joins world model _ rfl]
    exact Board.adjacencyFacts_pair (a := .of 0 0) (b := .of 0 0) |>.mpr (.inr ⟨rfl, rfl, by decide⟩)
  · rw [joins world model _ rfl]
    intro joined
    rcases Board.adjacencyFacts_pair (a := .of 0 0) (b := .of 0 1) |>.mp joined with adjacent | ⟨_, same, _⟩
    · exact absurd adjacent (by decide)
    · exact absurd same (by decide)
  · rw [joins' world' model' _ rfl]
    exact ⟨.of 0 0, .of 0 1, by decide, .inr (.inl ⟨.left, by decide, rfl⟩), rfl⟩

end GridPuzzle.Template
