import GridPuzzle.Proofs.Board.Joined
import GridPuzzle.Proofs.Rules.Ground

/-!
What a board gives to a program: facts about its cells, colors, walls and neighbors. Where a world has
them, what it says of rows and columns is what the board says of its cells.
-/
namespace GridPuzzle

namespace World

def empty : World := fun _ => False

/-- The facts of two worlds together. -/
def join (first second : World) : World := fun fact => first fact ∨ second fact

end World

namespace Board

variable {board : Board} {kind : Adjacency} {cell : Cell} {row col row' col' : Int}

/-- The numbers are those of a cell on the board. -/
def Covers (board : Board) (row col : Int) : Prop :=
  ∃ cell : Cell, board.contains cell = true ∧ cell.row.val = row ∧ cell.col.val = col

def Shades (board : Board) (row col : Int) : Prop :=
  ∃ cell : Cell, board.isShaded cell = true ∧ cell.row.val = row ∧ cell.col.val = col

theorem covers_cell : board.Covers cell.row.val cell.col.val ↔ board.contains cell = true := by
  refine ⟨fun covers => ?_, fun inside => ⟨cell, inside, rfl, rfl⟩⟩
  obtain ⟨other, inside, rows, cols⟩ := covers
  exact Cell.ext rows cols ▸ inside

/-- All numbers of rows and columns are those of cells, unless the board has too many. -/
theorem covers_iff (bounded : board.Bounded) : board.Covers row col ↔
    (0 ≤ row ∧ row < board.rows) ∧ 0 ≤ col ∧ col < board.cols := by
  unfold Bounded at bounded
  constructor
  · intro covers
    obtain ⟨cell, inside, rfl, rfl⟩ := covers
    exact contains_iff.mp inside
  · intro bounds
    exact ⟨⟨⟨row, by omega⟩, ⟨col, by omega⟩⟩, contains_iff.mpr bounds, rfl, rfl⟩

theorem shades_cell : board.Shades cell.row.val cell.col.val ↔ board.isShaded cell = true := by
  refine ⟨fun shades => ?_, fun shaded => ⟨cell, shaded, rfl, rfl⟩⟩
  obtain ⟨other, shaded, rows, cols⟩ := shades
  exact Cell.ext rows cols ▸ shaded

theorem Shades.covers (shades : board.Shades row col) : board.Covers row col := by
  obtain ⟨cell, shaded, same⟩ := shades
  exact ⟨cell, contains_of_isShaded shaded, same⟩

theorem covers_crossing (first : board.Covers row col) (second : board.Covers row' col') :
    board.Covers row col' := by
  obtain ⟨cell, inside, rows, cols⟩ := first
  obtain ⟨cell', inside', rows', cols'⟩ := second
  rw [contains_iff] at inside inside'
  exact ⟨⟨cell.row, cell'.col⟩, contains_iff.mpr ⟨inside.1, inside'.2⟩, rows, cols'⟩

/-- A board has all four corners of a box if it has two that lie across from each other. -/
theorem covers_spanned {r c : Int} (first : board.Covers row col) (last : board.Covers row' col')
    (inRow : r = row ∨ r = row') (inCol : c = col ∨ c = col') : board.Covers r c := by
  rcases inRow with rfl | rfl <;> rcases inCol with rfl | rfl
  · exact first
  · exact covers_crossing first last
  · exact covers_crossing last first
  · exact last

theorem covers_colored (color : Color) : (board.colored color).Covers row col ↔ board.Covers row col := by
  simp only [Covers, contains_colored]

theorem shades_full : board.full.Shades row col ↔ board.Covers row col := by
  simp only [Shades, Covers, isShaded_full]

theorem shades_complement :
    board.complement.Shades row col ↔ board.Covers row col ∧ ¬ board.Shades row col := by
  apply Iff.intro
  · intro shades
    obtain ⟨cell, shaded, rfl, rfl⟩ := shades
    rw [covers_cell, shades_cell]
    exact isShaded_complement.mp shaded
  · intro both
    obtain ⟨⟨cell, inside, rfl, rfl⟩, unshaded⟩ := both
    rw [shades_cell] at unshaded
    exact shades_cell.mpr (isShaded_complement.mpr ⟨inside, unshaded⟩)

def Adjoins (board : Board) (kind : Adjacency) (row col row' col' : Int) : Prop :=
  ∃ a b : Cell, board.adjacent a b kind = .ok true ∧ (a.row.val = row ∧ a.col.val = col) ∧
    b.row.val = row' ∧ b.col.val = col'

theorem adjoins_cells {a b : Cell} : board.Adjoins kind a.row.val a.col.val b.row.val b.col.val ↔
    board.adjacent a b kind = .ok true := by
  refine ⟨fun adjoins => ?_, fun adjacent => ⟨a, b, adjacent, ⟨rfl, rfl⟩, rfl, rfl⟩⟩
  obtain ⟨first, second, adjacent, same, same'⟩ := adjoins
  rw [← Cell.ext same.1 same.2, ← Cell.ext same'.1 same'.2]
  exact adjacent

theorem adjoins_tinted (color : Option Color) :
    (board.tinted color).Adjoins kind row col row' col' ↔ board.Adjoins kind row col row' col' := by
  simp only [Adjoins, adjacent_tinted]

theorem Adjoins.covers (fixed : kind.Fixed) (adjoins : board.Adjoins kind row col row' col') :
    board.Covers row' col' := by
  obtain ⟨a, b, adjacent, _, same⟩ := adjoins
  exact ⟨b, ((adjacent_iff fixed).mp adjacent).1.2, same⟩

theorem Adjoins.near (fixed : kind.Fixed) {a b : Cell}
    (adjoins : board.Adjoins kind (row + a.row.val) (col + a.col.val) (row + b.row.val) (col + b.col.val)) :
    kind.Near a b := by
  obtain ⟨first, second, adjacent, same, same'⟩ := adjoins
  have near := ((adjacent_iff fixed).mp adjacent).2.1
  cases kind <;> simp only [Adjacency.Near] at * <;> omega

def gridFacts (board : Board) : World := fun fact =>
  ∃ cell : Cell, board.contains cell = true ∧ fact = .cell Relation.grid cell.row.val cell.col.val

def colorFacts (board : Board) (name : String) : World := fun fact =>
  ∃ cell : Cell, board.isShaded cell = true ∧ fact = .cell name cell.row.val cell.col.val

/-- The kind's relation holds of neighbors; on request each cell is its own neighbor too. -/
def adjacencyFacts (board : Board) (kind : Adjacency) (includeSelf : Bool) : World := fun fact =>
  ∃ a b : Cell, (board.adjacent a b kind = .ok true ∨
      includeSelf = true ∧ a = b ∧ board.contains a = true) ∧
    fact = .pair kind.relation a.row.val a.col.val b.row.val b.col.val

/-- The sides behind which lies the cell that a wall belongs to, with the wall's relation. -/
def wallSides : List (Side × String) := [(.right, Relation.wallLeft), (.down, Relation.wallTop)]

/-- A wall stands on the left or the top side of a cell. -/
def wallFacts (board : Board) : World := fun fact =>
  ∃ place ∈ wallSides, ∃ a b : Cell, place.1.neighbor a = .ok b ∧ board.isWalled a b = true ∧
    fact = .cell place.2 b.row.val b.col.val

theorem gridFacts_relation {fact : Fact} (given : board.gridFacts fact) :
    fact.relation = Relation.grid := by
  obtain ⟨cell, _, rfl⟩ := given
  rfl

theorem colorFacts_relation {name : String} {fact : Fact} (given : board.colorFacts name fact) :
    fact.relation = name := by
  obtain ⟨cell, _, rfl⟩ := given
  rfl

theorem adjacencyFacts_relation {includeSelf : Bool} {fact : Fact}
    (given : board.adjacencyFacts kind includeSelf fact) : fact.relation = kind.relation := by
  obtain ⟨a, b, _, rfl⟩ := given
  rfl

theorem wallFacts_relation {fact : Fact} (given : board.wallFacts fact) :
    fact.relation = Relation.wallLeft ∨ fact.relation = Relation.wallTop := by
  obtain ⟨place, member, a, b, _, _, rfl⟩ := given
  rcases List.mem_pair.mp member with rfl | rfl
  · exact .inl rfl
  · exact .inr rfl

theorem gridFacts_cell : board.gridFacts (.cell Relation.grid row col) ↔ board.Covers row col := by
  simp only [gridFacts, Covers, Fact.cell_inj, true_and, eq_comm]

theorem colorFacts_cell {name : String} :
    board.colorFacts name (.cell name row col) ↔ board.Shades row col := by
  simp only [colorFacts, Shades, Fact.cell_inj, true_and, eq_comm]

theorem adjacencyFacts_pair {includeSelf : Bool} {a b : Cell} :
    board.adjacencyFacts kind includeSelf
        (.pair kind.relation a.row.val a.col.val b.row.val b.col.val) ↔
      board.adjacent a b kind = .ok true ∨ includeSelf = true ∧ a = b ∧ board.contains a = true := by
  refine ⟨fun given => ?_, fun holds => ⟨a, b, holds, rfl⟩⟩
  obtain ⟨first, second, holds, same⟩ := given
  simp only [Fact.pair_inj, true_and] at same
  obtain ⟨rows, cols, rows', cols'⟩ := same
  rw [Cell.ext rows cols, Cell.ext rows' cols']
  exact holds

theorem adjacencyFacts_adjoins {includeSelf : Bool} :
    board.adjacencyFacts kind includeSelf (.pair kind.relation row col row' col') ↔
      board.Adjoins kind row col row' col' ∨
        includeSelf = true ∧ (row = row' ∧ col = col') ∧ board.Covers row col := by
  apply Iff.intro
  · intro given
    obtain ⟨a, b, holds, same⟩ := given
    obtain ⟨_, rfl, rfl, rfl, rfl⟩ := Fact.pair_inj.mp same
    rcases holds with adjacent | ⟨self, rfl, inside⟩
    · exact .inl (adjoins_cells.mpr adjacent)
    · exact .inr ⟨self, ⟨rfl, rfl⟩, covers_cell.mpr inside⟩
  · intro either
    rcases either with ⟨a, b, adjacent, ⟨rfl, rfl⟩, rfl, rfl⟩ | ⟨self, ⟨rfl, rfl⟩, cell, inside, rfl, rfl⟩
    · exact ⟨a, b, .inl adjacent, rfl⟩
    · exact ⟨cell, cell, .inr ⟨self, rfl, inside⟩, rfl⟩

theorem wallFacts_cell {place : Side × String} (member : place ∈ wallSides) {a b : Cell}
    (beside : place.1.neighbor a = .ok b) :
    board.wallFacts (.cell place.2 b.row.val b.col.val) ↔ board.isWalled a b = true := by
  refine ⟨fun given => ?_, fun walled => ⟨place, member, a, b, beside, walled, rfl⟩⟩
  obtain ⟨other, otherMember, first, second, otherBeside, walled, same⟩ := given
  obtain ⟨names, rows, cols⟩ := Fact.cell_inj.mp same
  have apart : ∀ p ∈ wallSides, ∀ q ∈ wallSides, p.2 = q.2 → p = q := by decide
  have samePlace := apart place member other otherMember names
  subst samePlace
  have moved := Cell.shift_eq_ok.mp beside
  have otherMoved := Cell.shift_eq_ok.mp otherBeside
  have sameSecond : second = b := Cell.ext rows.symm cols.symm
  subst sameSecond
  have sameFirst : first = a := Cell.ext (by omega) (by omega)
  exact sameFirst ▸ walled

theorem neighbor_right {a b : Cell} (rows : b.row.val = a.row.val) (cols : b.col.val = a.col.val + 1) :
    Side.right.neighbor a = .ok b :=
  Cell.shift_eq_ok.mpr ⟨rows.trans (Int.add_zero _).symm, cols⟩

theorem neighbor_down {a b : Cell} (rows : b.row.val = a.row.val + 1) (cols : b.col.val = a.col.val) :
    Side.down.neighbor a = .ok b :=
  Cell.shift_eq_ok.mpr ⟨rows, cols.trans (Int.add_zero _).symm⟩

theorem neighbor_of_near {a b : Cell} (near : Adjacency.side.Near a b) :
    ∃ place ∈ wallSides, place.1.neighbor a = .ok b ∨ place.1.neighbor b = .ok a := by
  change _ + _ = 1 at near
  by_cases level : a.row.val = b.row.val
  · refine ⟨(.right, Relation.wallLeft), List.mem_cons_self, ?_⟩
    by_cases less : a.col.val < b.col.val
    · exact .inl (neighbor_right (by omega) (by omega))
    · exact .inr (neighbor_right (by omega) (by omega))
  · refine ⟨(.down, Relation.wallTop), List.mem_cons_of_mem _ (List.mem_singleton_self _), ?_⟩
    by_cases less : a.row.val < b.row.val
    · exact .inl (neighbor_down (by omega) (by omega))
    · exact .inr (neighbor_down (by omega) (by omega))

theorem near_of_neighbor {place : Side × String} (member : place ∈ wallSides) {a b : Cell}
    (beside : place.1.neighbor a = .ok b) : Adjacency.side.Near a b := by
  have single : ∀ place ∈ wallSides,
      place.1.offset.row.val.natAbs + place.1.offset.col.val.natAbs = 1 := by decide
  have one := single place member
  have moved := Cell.shift_eq_ok.mp beside
  change _ + _ = 1
  omega

end Board

/-- The cell that a rule is about is on the grid and has the color, if there is one. -/
def inColor (color : Option Color) : List Literal :=
  .test (onGrid .here) :: color.elim [] fun own => [.test (own.on .here)]

/-- What puts a cell in a color asks for something that fails only of the color itself. -/
theorem inColor_relations {color : Option Color} {literal : Literal} (member : literal ∈ inColor color)
    (negative : ∀ atom, literal ≠ .holds atom) {relation : String} (looked : relation ∈ literal.relations) :
    ∃ own, color = some own ∧ relation = own.name := by
  rcases List.mem_cons.mp member with rfl | onColor
  · exact absurd rfl (negative _)
  · cases color with
    | none => cases onColor
    | some own =>
      rw [List.mem_singleton.mp onColor] at looked
      cases own <;> exact ⟨_, rfl, List.mem_singleton.mp looked⟩

/-- The world knows the grid of a board and which of its cells a color picks. -/
structure World.Shows (world : World) (board : Board) (color : Option Color) : Prop where
  grid : ∀ fact : Fact, fact.relation = Relation.grid → (world fact ↔ board.gridFacts fact)
  color : ∀ own, color = some own → ∀ fact : Fact, fact.relation = own.name →
    (world fact ↔ board.colorFacts own.name fact)

namespace World.Shows

variable {world : World} {board : Board} {color : Option Color} {own : Color} {row col : Int}
  {binding : Binding}

theorem of_board (color : Option Color) (named : ∀ own, color = some own → own.name ≠ Relation.grid) :
    World.Shows (board.gridFacts.join (color.elim .empty fun own => board.colorFacts own.name)) board color := by
  constructor
  · intro fact same
    apply or_iff_left
    intro given
    cases color with
    | none => cases given
    | some own => exact named own rfl ((Board.colorFacts_relation given).symm.trans same)
  · intro own chosen fact same
    subst chosen
    apply or_iff_right
    intro given
    exact named own rfl (same.symm.trans (Board.gridFacts_relation given))

/-- Facts of other relations change nothing about what a world shows. -/
theorem join {others : World} (shows : world.Shows board color)
    (apart : ∀ fact, others fact → fact.relation ≠ Relation.grid ∧
      ∀ own, color = some own → own.name ≠ fact.relation) : World.Shows (world.join others) board color := by
  constructor
  · intro fact same
    rw [← shows.grid fact same]
    exact or_iff_left fun other => (apart fact other).1 same
  · intro own chosen fact same
    rw [← shows.color own chosen fact same]
    exact or_iff_left fun other => (apart fact other).2 own chosen same.symm

/-- A program that defines none of these relations leaves them as they are given. -/
theorem of_model {given : World} {program : Program} (shows : given.Shows board color)
    (model : program.Model given world) (grid : ¬ program.Defines Relation.grid)
    (named : ∀ own, color = some own → ¬ program.Defines own.name) : world.Shows board color := by
  constructor
  · intro fact same
    rw [model.iff_given (same ▸ grid), shows.grid fact same]
  · intro own chosen fact same
    rw [model.iff_given (same ▸ named own chosen), shows.color own chosen fact same]

theorem grid_cell (shows : world.Shows board color) :
    world (.cell Relation.grid row col) ↔ board.Covers row col :=
  (shows.grid _ rfl).trans Board.gridFacts_cell

theorem onGrid_iff (shows : world.Shows board color) {place : Place} {value value' : Value}
    (stand : StandAll binding place.args [value, value']) : (onGrid place).Holds world binding ↔
      ∃ row col, board.Covers row col ∧ value = .num row ∧ value' = .num col := by
  rw [onGrid, Atom.cell, Test.holds_iff stand, shows.grid _ rfl]
  apply Iff.intro
  · intro given
    obtain ⟨cell, inside, same⟩ := given
    simp only [Fact.cell, Fact.mk.injEq, List.cons.injEq, and_true, true_and] at same
    exact ⟨_, _, ⟨cell, inside, rfl, rfl⟩, same⟩
  · intro covered
    obtain ⟨row, col, ⟨cell, inside, rfl, rfl⟩, rfl, rfl⟩ := covered
    exact ⟨cell, inside, rfl⟩

theorem onGrid_here (shows : world.Shows board color) : (onGrid .here).Holds world binding ↔
    ∃ row col, board.Covers row col ∧ Place.Here binding row col :=
  shows.onGrid_iff (here_args binding)

theorem onGrid_other (shows : world.Shows board color) : (onGrid .other).Holds world binding ↔
    ∃ row col, board.Covers row col ∧ Place.Other binding row col :=
  shows.onGrid_iff (other_args binding)

theorem color_cell (shows : world.Shows board (some own)) :
    world (.cell own.name row col) ↔ board.Shades row col :=
  (shows.color own rfl _ rfl).trans Board.colorFacts_cell

theorem shades_colored (shows : world.Shows board (some own)) :
    (board.colored own).Shades row col ↔ board.Covers row col ∧ own.Matches world row col := by
  cases own with
  | positive name =>
    refine ⟨fun shades => ⟨shades.covers, shows.color_cell.mpr shades⟩, fun both => ?_⟩
    exact shows.color_cell.mp both.2
  | negated name => exact Board.shades_complement.trans (and_congr_right' (not_congr shows.color_cell.symm))

theorem inColor_holds (shows : world.Shows board color) {outer : List String}
    (here : Place.Here binding row col) :
    (∀ literal ∈ inColor color, literal.Holds world outer binding) ↔
      (board.tinted color).Shades row col := by
  have grid : (Literal.test (onGrid .here)).Holds world outer binding ↔ board.Covers row col :=
    (holds_cell here.stands).trans shows.grid_cell
  rw [inColor, List.forall_mem_cons, grid]
  cases color with
  | none => simp [Board.tinted, Board.shades_full]
  | some own =>
    have on : (Literal.test (own.on .here)).Holds world outer binding ↔ own.Matches world row col :=
      holds_on own here.stands
    rw [Option.elim_some, List.forall_mem_singleton, on, Board.tinted, shows.shades_colored]

end World.Shows

end GridPuzzle
