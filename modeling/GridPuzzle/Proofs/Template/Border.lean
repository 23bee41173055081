import GridPuzzle.Proofs.Template.Connection

/-!
Colors connected to the border. The label starts at the cells of a color on the outer ring of the grid, so
that it leaves out a cell of the color exactly if some group has no cell there.
-/
namespace GridPuzzle

namespace Board

variable {board : Board} {kind : Adjacency} {cell : Cell} {groups : List (List Cell)}

/-- The cell lies in the first or the last row or column. -/
def OnBorder (board : Board) (cell : Cell) : Prop :=
  (cell.row.val = 0 ∨ cell.row.val = board.rows - 1) ∨ cell.col.val = 0 ∨ cell.col.val = board.cols - 1

instance (board : Board) (cell : Cell) : Decidable (board.OnBorder cell) :=
  inferInstanceAs (Decidable ((_ ∨ _) ∨ _ ∨ _))

open Template in
/-- Where a label starts at all shaded cells of some sort, a group is left out if it has none of them. -/
theorem uncovered_iff (fixed : kind.Fixed) (grouped : board.components kind = .ok groups)
    (sort : Cell → Prop) :
    (∃ cell, board.isShaded cell = true ∧
        ¬ Covered board kind (fun source => board.isShaded source = true ∧ sort source) cell) ↔
      ∃ group ∈ groups, ∀ cell ∈ group, ¬ sort cell := by
  obtain ⟨classes, placed⟩ := IsGroup.of_components fixed grouped
  constructor
  · intro missed
    obtain ⟨cell, shaded, uncovered⟩ := missed
    obtain ⟨group, member, inside⟩ := placed cell shaded
    refine ⟨group, member, fun source inGroup sorted => uncovered ⟨source, ?_, ?_⟩⟩
    · exact ⟨(classes group member).shaded source inGroup, sorted⟩
    · exact ((classes group member).joined source inGroup cell).mp inside
  · intro none
    obtain ⟨group, member, unsorted⟩ := none
    have isGroup := classes group member
    obtain ⟨first, _, inside⟩ := isGroup.head_mem
    refine ⟨first, isGroup.shaded first inside, fun covered => ?_⟩
    obtain ⟨source, ⟨_, sorted⟩, joined⟩ := covered
    exact unsorted source ((isGroup.joined first inside source).mpr (joined.symm fixed)) sorted

end Board

namespace Template

variable {board : Board} {color : Color} {kind : Adjacency} {rows cols : Coord}

theorem mem_ring {rows cols row col : Nat} (wide : 0 < cols) : (row, col) ∈ ring rows cols ↔
    (row < rows ∧ col < cols) ∧ ((row = 0 ∨ row + 1 = rows) ∨ col = 0 ∨ col + 1 = cols) := by
  simp only [ring, List.mem_flatMap, List.mem_range]
  constructor
  · intro listed
    obtain ⟨r, inRow, listed⟩ := listed
    split at listed
    · rename_i outer
      obtain ⟨c, inCol, same⟩ := List.mem_map.mp listed
      obtain ⟨rfl, rfl⟩ := Prod.mk.inj same
      exact ⟨⟨inRow, List.mem_range.mp inCol⟩, .inl outer⟩
    · split at listed <;>
        simp only [List.mem_cons, Prod.mk.injEq, List.not_mem_nil, or_false] at listed <;> omega
  · intro onRing
    obtain ⟨⟨inRow, inCol⟩, outer⟩ := onRing
    refine ⟨row, inRow, ?_⟩
    split
    · exact List.mem_map.mpr ⟨col, List.mem_range.mpr inCol, rfl⟩
    · split <;> simp only [List.mem_cons, Prod.mk.injEq, List.not_mem_nil, or_false, true_and] <;> omega

def ringPlace (cell : Nat × Nat) : Place := ⟨.int cell.1, .int cell.2⟩

/-- The rules that start the label: every cell of the color on the ring has it. -/
def ringRules (rows cols : Nat) (color : Color) : List (Place × List Literal) :=
  (ring rows cols).map fun cell => (ringPlace cell, [.test (color.on (ringPlace cell))])

theorem ringPlace_stands (binding : Binding) (cell : Nat × Nat) :
    (ringPlace cell).Stands binding cell.1 cell.2 :=
  ⟨Term.stands_int _, Term.stands_int _⟩

theorem connectedToBorder_ok (tall : 0 < rows.val) (wide : 0 < cols.val) :
    connectedToBorder rows cols color kind = .ok (spreading (spreadLabel ["border"] kind (some color)) color kind
      (ringRules rows.val.toNat cols.val.toNat color)) := by
  have cells : requireCells rows cols = .ok () := if_neg (by omega)
  rw [connectedToBorder, Outcome.bind_of_ok cells, spreading, ringRules, List.map_map]
  rfl

theorem fires_ring (label : String) (world : World) {rows cols : Nat} (fact : Fact) :
    Fires world label (ringRules rows cols color) fact ↔ ∃ cell ∈ ring rows cols,
      color.Matches world cell.1 cell.2 ∧ fact = .cell label cell.1 cell.2 := by
  simp only [Fires, ringRules, List.mem_map, exists_exists_and_eq_and, List.forall_mem_singleton]
  refine exists_congr fun cell => and_congr_right fun _ => ?_
  have denotes (binding : Binding) : (Atom.cell label (ringPlace cell)).Denotes binding fact ↔
      fact = .cell label cell.1 cell.2 := Atom.denotes_iff (ringPlace_stands binding cell).args
  have holds (binding : Binding) : (color.on (ringPlace cell)).Holds world binding ↔
      color.Matches world cell.1 cell.2 := holds_on color (ringPlace_stands binding cell)
  simp only [denotes, Literal.Holds, holds]
  exact ⟨fun fired => fired.elim fun _ both => both.symm, fun both => ⟨fun _ => .inf, both.symm⟩⟩

theorem looks_ringRules (rows cols : Nat) (color : Color) : ∀ rule ∈ ringRules rows cols color, ∀ literal ∈ rule.2,
    ∀ relation ∈ literal.relations, relation ∈ [Relation.grid, color.name] := by
  simp only [ringRules, List.forall_mem_map, List.forall_mem_singleton]
  intro cell _ relation looked
  cases color <;> exact List.mem_cons_of_mem _ looked

theorem ring_starts (color : Color) (bounded : board.Bounded) (label : String) :
    Starts board label color (ringRules board.rows board.cols color)
      (fun cell => (board.colored color).isShaded cell = true ∧ board.OnBorder cell) := by
  refine ⟨looks_ringRules _ _ color, fun cell isStart => isStart.1, fun world shows fact => ?_⟩
  have wide := board.positive.2
  rw [fires_ring]
  constructor
  · intro fired
    obtain ⟨⟨row, col⟩, onRing, matched, rfl⟩ := fired
    obtain ⟨⟨inRow, inCol⟩, outer⟩ := (mem_ring wide).mp onRing
    have covers : board.Covers row col := (Board.covers_iff bounded).mpr (by omega)
    obtain ⟨cell, shaded, rows, cols⟩ := shows.shades_colored.mpr ⟨covers, matched⟩
    refine ⟨cell, ⟨shaded, ?_⟩, by rw [rows, cols]⟩
    unfold Board.OnBorder
    omega
  · intro started
    obtain ⟨cell, ⟨shaded, border⟩, rfl⟩ := started
    obtain ⟨covers, matched⟩ := shows.shades_colored.mp (Board.shades_cell.mpr shaded)
    have bounds := (Board.covers_iff bounded).mp covers
    have rows : ((cell.row.val.toNat : Nat) : Int) = cell.row.val := by omega
    have cols : ((cell.col.val.toNat : Nat) : Int) = cell.col.val := by omega
    refine ⟨(cell.row.val.toNat, cell.col.val.toNat), (mem_ring wide).mpr ?_, ?_⟩
    · unfold Board.OnBorder at border
      omega
    · rw [rows, cols]
      exact ⟨matched, rfl⟩

/-- The rules for a grid of the board's size are built and have one model, and their constraint is broken in
it exactly if some group of the color has no cell on the border. -/
theorem connectedToBorder_agree (board : Board) (rows cols : Coord) (tall : rows.val = board.rows)
    (wide : cols.val = board.cols) (color : Color) (kind : Adjacency) (includeSelf : Bool)
    (fixed : kind.Fixed) (named : Named (some color) kind) :
    ∃ program groups, connectedToBorder rows cols color kind = .ok program ∧
      (board.colored color).components kind = .ok groups ∧
      (∃! world, program.Model (spreadFacts board (some color) kind includeSelf) world) ∧
      ∀ world, program.Model (spreadFacts board (some color) kind includeSelf) world →
        (program.Violated world ↔ ∃ group ∈ groups, ∀ cell ∈ group, ¬ board.OnBorder cell) := by
  have inRange := And.intro rows.inRange.2 cols.inRange.2
  have bounded : board.Bounded := by
    unfold Board.Bounded
    omega
  have positive := board.positive
  have built : connectedToBorder rows cols color kind = .ok _ := connectedToBorder_ok (by omega) (by omega)
  rw [tall, wide, Int.toNat_natCast, Int.toNat_natCast] at built
  obtain ⟨groups, grouped⟩ := (Board.bounded_tinted bounded (some color)).exists_components fixed
  have starts := ring_starts color bounded (spreadLabel ["border"] kind (some color))
  have feeds := spreadFacts_feed board ["border"] named includeSelf
  refine ⟨_, groups, built, grouped, existsUnique_spreading starts feeds, fun world model => ?_⟩
  rw [violated_spreading fixed starts feeds model]
  exact Board.uncovered_iff fixed grouped board.OnBorder

/-- A ring of white cells around the middle of a grid, seen as the cells that are not black. -/
def kernelBoard : Board := .ofShading 3 3 (by decide) fun row col => row ≠ 1 ∨ col ≠ 1

theorem connectedToBorder_agree_kernel : ∃ program world,
    connectedToBorder (.of 3) (.of 3) (.negated "white") .around = .ok program ∧
    program.Model (spreadFacts kernelBoard (some (.negated "white")) .around true) world ∧
    program.Violated world := by
  have named : Named (some (.negated "white")) .around := by
    intro own chosen
    cases chosen
    decide
  obtain ⟨program, groups, built, grouped, ⟨world, model, _⟩, agree⟩ := connectedToBorder_agree kernelBoard
    (.of 3) (.of 3) rfl rfl (.negated "white") .around true ⟨nofun, nofun⟩ named
  have middle : (kernelBoard.colored (.negated "white")).components .around = .ok [[.of 1 1]] := by
    decide +kernel
  cases grouped.symm.trans middle
  refine ⟨program, world, built, model, (agree world model).mpr ⟨_, List.mem_singleton_self _, ?_⟩⟩
  decide

end Template

end GridPuzzle
