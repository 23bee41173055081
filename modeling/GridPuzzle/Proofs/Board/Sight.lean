import GridPuzzle.Proofs.Plane
import GridPuzzle.Proofs.Board.Classes
import GridPuzzle.Proofs.Board.Rays

/-!
What a bulb lights, told from both of its ends. A cell is lit if the straight line to it from the source is shaded
and no wall crosses it where walls count. So the source is lit from the cell as well, and the line joins the two.
-/
namespace GridPuzzle

/-- The cell lies in the box that two cells span, which is the line between them if they are in line. -/
def Cell.Between (first last cell : Cell) : Prop :=
  Plane.Between first.row.val last.row.val cell.row.val ∧ Plane.Between first.col.val last.col.val cell.col.val

def Cell.stepsTo (source cell : Cell) : Nat :=
  (cell.row.val - source.row.val).natAbs + (cell.col.val - source.col.val).natAbs

namespace Cell

variable {first last cell : Cell}

theorem between_comm : Between first last cell ↔ Between last first cell := by
  simp only [Between, Plane.Between]
  omega

theorem between_first (first last : Cell) : Between first last first := by
  simp only [Between, Plane.Between]
  omega

theorem between_last (first last : Cell) : Between first last last := between_comm.mp (between_first last first)

theorem between_self : Between first first cell ↔ cell = first := by
  simp only [Between, Plane.Between, Cell.ext_iff]
  omega

end Cell

namespace Board

variable {board : Board} {kind : Adjacency} {side : Side} {source target before cell next : Cell}

/-- The two cells lie in line, the cells from one to the other are shaded, and no wall stands between two of them that
share a side if walls part neighbors of the kind. -/
structure Clear (board : Board) (kind : Adjacency) (source target : Cell) : Prop where
  inLine : source.row.val = target.row.val ∨ source.col.val = target.col.val
  shaded : ∀ cell, Cell.Between source target cell → board.isShaded cell = true
  unwalled : kind = .walled → ∀ cell next, Cell.Between source target cell → Cell.Between source target next →
    Adjacency.side.Near cell next → board.isWalled cell next = false

theorem Clear.symm (clear : board.Clear kind source target) : board.Clear kind target source where
  inLine := clear.inLine.imp Eq.symm Eq.symm
  shaded cell between := clear.shaded cell (Cell.between_comm.mp between)
  unwalled walls cell next between between' :=
    clear.unwalled walls cell next (Cell.between_comm.mp between) (Cell.between_comm.mp between')

theorem clear_self (shaded : board.isShaded source = true) : board.Clear kind source source where
  inLine := .inl rfl
  shaded cell between := Cell.between_self.mp between ▸ shaded
  unwalled _ cell next between between' near := by
    rw [Cell.between_self.mp between, Cell.between_self.mp between'] at near
    simp [Adjacency.Near] at near

section Step

variable (ahead : Ahead side source before) (stepped : side.neighbor before = .ok cell)
include ahead stepped

theorem Ahead.step : Ahead side source cell := by
  have moved := neighbor_eq_ok.mp stepped
  cases side <;> simp only [Ahead] at * <;> omega

theorem between_step : Cell.Between source cell next ↔ Cell.Between source before next ∨ next = cell := by
  have moved := neighbor_eq_ok.mp stepped
  rw [Cell.ext_iff]
  cases side <;> simp only [Ahead, Cell.Between, Plane.Between] at * <;> omega

/-- Of the line up to a cell, only its end shares a side with the next cell. -/
theorem eq_of_between_of_near (between : Cell.Between source before next) (near : Adjacency.side.Near next cell) :
    next = before := by
  have moved := neighbor_eq_ok.mp stepped
  rw [Cell.ext_iff]
  cases side <;> simp only [Ahead, Cell.Between, Plane.Between, Adjacency.Near] at * <;> omega

/-- A line of sight reaches one cell further if that cell is shaded and no wall stands in front of it. -/
theorem clear_step : board.Clear kind source cell ↔ board.Clear kind source before ∧ board.isShaded cell = true ∧
    (kind = .walled → board.isWalled before cell = false) := by
  have within {next : Cell} (between : Cell.Between source before next) : Cell.Between source cell next :=
    (between_step ahead stepped).mpr (.inl between)
  constructor
  · intro clear
    have shorter : board.Clear kind source before := by
      refine ⟨ahead.in_line.imp Eq.symm Eq.symm, fun next between => clear.shaded next (within between), ?_⟩
      intro walls first second between between'
      exact clear.unwalled walls first second (within between) (within between')
    refine ⟨shorter, clear.shaded cell (Cell.between_last source cell), fun walls => ?_⟩
    exact clear.unwalled walls before cell (within (Cell.between_last source before)) (Cell.between_last source cell)
      (near_side_of_neighbor stepped)
  · intro further
    obtain ⟨clear, shaded, unwalled⟩ := further
    refine ⟨(ahead.step stepped).in_line.imp Eq.symm Eq.symm, fun next between => ?_, ?_⟩
    · rcases (between_step ahead stepped).mp between with inner | rfl
      · exact clear.shaded next inner
      · exact shaded
    · intro walls first second between between' near
      rcases (between_step ahead stepped).mp between with inner | rfl <;>
        rcases (between_step ahead stepped).mp between' with inner' | rfl
      · exact clear.unwalled walls first second inner inner' near
      · rw [eq_of_between_of_near ahead stepped inner near]
        exact unwalled walls
      · rw [eq_of_between_of_near ahead stepped inner' near.symm, isWalled_symm]
        exact unwalled walls
      · simp [Adjacency.Near] at near

end Step

/-- A cell ahead of the source that is another cell lies behind one that is a step nearer. -/
theorem exists_before {count : Nat} (ahead : Ahead side source cell) (far : source.stepsTo cell = count + 1) :
    ∃ before, side.neighbor before = .ok cell ∧ Ahead side source before ∧ source.stepsTo before = count := by
  have inRange := And.intro source.row.inRange source.col.inRange
  obtain ⟨before, back⟩ : ∃ before, side.opposite.neighbor cell = .ok before := by
    have inRange' := And.intro cell.row.inRange cell.col.inRange
    have zero : Int8.toInt 0 = 0 := rfl
    have one : Int8.toInt 1 = 1 := rfl
    have minusOne : Int8.toInt (-1) = -1 := rfl
    refine Cell.exists_shift_iff.mpr ?_
    cases side <;> simp only [Ahead, Cell.stepsTo, Side.opposite, Side.offset, Cell.of, Coord.of] at * <;> omega
  have moved := neighbor_eq_ok.mp back
  refine ⟨before, neighbor_eq_ok.mpr ?_, ?_⟩
  · cases side <;> simp only [Side.opposite] at * <;> omega
  · cases side <;> simp only [Side.opposite, Ahead, Cell.stepsTo] at * <;> omega

theorem exists_ahead (inLine : source.row.val = cell.row.val ∨ source.col.val = cell.col.val) :
    ∃ side, Ahead side source cell := by
  have found : Ahead .left source cell ∨ Ahead .up source cell ∨ Ahead .right source cell ∨
      Ahead .down source cell := by
    simp only [Ahead]
    omega
  rcases found with ahead | ahead | ahead | ahead
  · exact ⟨.left, ahead⟩
  · exact ⟨.up, ahead⟩
  · exact ⟨.right, ahead⟩
  · exact ⟨.down, ahead⟩

theorem Lit.clear (fixed : kind.Fixed) (shaded : board.isShaded source = true) (lit : board.Lit kind source cell) :
    board.Clear kind source cell := by
  obtain ⟨side, seen⟩ := lit
  induction seen with
  | refl => exact clear_self shaded
  | tail seenBefore sees ih =>
    obtain ⟨stepped, shaded', adjacent⟩ := sees
    exact (clear_step (ahead_of_sees seenBefore) stepped).mpr ⟨ih, shaded', ((adjacent_iff fixed).mp adjacent).2.2⟩

/-- A line of sight is walked cell by cell, as each of its cells sees the next one. -/
theorem Clear.seen (fixed : kind.Fixed) (straight : kind ≠ .corner) (count : Nat) (ahead : Ahead side source cell)
    (far : source.stepsTo cell = count) (clear : board.Clear kind source cell) :
    Relation.ReflTransGen (board.Sees kind side) source cell := by
  induction count generalizing cell with
  | zero =>
    have same : cell = source := by
      rw [Cell.ext_iff]
      simp only [Cell.stepsTo] at far
      omega
    exact same ▸ .refl
  | succ count ih =>
    obtain ⟨before, stepped, ahead', far'⟩ := exists_before ahead far
    obtain ⟨shorter, shaded, unwalled⟩ := (clear_step ahead' stepped).mp clear
    have beside := near_side_of_neighbor stepped
    have near : kind.Near before cell := by
      cases kind with
      | corner => exact absurd rfl straight
      | around => exact .inl beside
      | side | walled | path | directedPath => exact beside
    have inside := contains_of_isShaded (shorter.shaded before (Cell.between_last source before))
    have adjacent : board.adjacent before cell kind = .ok true :=
      (adjacent_iff fixed).mpr ⟨⟨inside, contains_of_isShaded shaded⟩, near, unwalled⟩
    exact (ih ahead' far' shorter).tail ⟨stepped, shaded, adjacent⟩

/-- Cells that share only a corner are not seen through a side. -/
theorem lit_corner : board.Lit .corner source cell ↔ cell = source := by
  constructor
  · intro lit
    obtain ⟨side, seen⟩ := lit
    rcases Relation.ReflTransGen.cases_head seen with same | ⟨next, sees, _⟩
    · exact same.symm
    · have fixed : Adjacency.Fixed .corner := ⟨nofun, nofun⟩
      have beside := near_side_of_neighbor sees.1
      have across := ((adjacent_iff fixed).mp sees.2.2).2.1
      simp only [Adjacency.Near] at beside across
      omega
  · intro same
    exact ⟨.left, same ▸ .refl⟩

theorem Lit.joined (shaded : board.isShaded source = true) (lit : board.Lit kind source cell) :
    board.Joined kind source cell := by
  obtain ⟨side, seen⟩ := lit
  induction seen with
  | refl => exact .refl
  | tail _ sees ih => exact ih.tail ⟨ih.isShaded shaded, sees.2⟩

theorem bulb_of_unshaded (unshaded : board.isShaded source = false) : board.bulb source kind = .ok [] := by
  rw [bulb, unshaded]
  rfl

theorem bulb_increasing {cells : List Cell} (found : board.bulb source kind = .ok cells) : Cell.Increasing cells := by
  rcases Outcome.ite_eq_ok.mp found with ⟨_, found⟩ | ⟨_, found⟩
  · obtain ⟨rays, _, same⟩ := Outcome.bind_eq_ok.mp found
    rw [← Outcome.pure_eq_ok.mp same]
    exact Cell.sort_increasing _
  · rw [← Outcome.pure_eq_ok.mp found]
    exact List.Pairwise.nil

/-- Where light goes through sides, a bulb lights its lines of sight. -/
theorem lit_iff (fixed : kind.Fixed) (straight : kind ≠ .corner) :
    board.isShaded source = true ∧ board.Lit kind source cell ↔ board.Clear kind source cell := by
  constructor
  · exact fun both => both.2.clear fixed both.1
  · intro clear
    obtain ⟨side, ahead⟩ := exists_ahead clear.inLine
    exact ⟨clear.shaded source (Cell.between_first source cell), side, clear.seen fixed straight _ ahead rfl⟩

theorem lit_comm (fixed : kind.Fixed) : board.isShaded source = true ∧ board.Lit kind source cell ↔
    board.isShaded cell = true ∧ board.Lit kind cell source := by
  by_cases straight : kind = .corner
  · subst straight
    rw [lit_corner, lit_corner]
    constructor <;> rintro ⟨shaded, rfl⟩ <;> exact ⟨shaded, rfl⟩
  · rw [lit_iff fixed straight, lit_iff fixed straight]
    exact ⟨Clear.symm, Clear.symm⟩

/-- Whatever the board, up to the greatest coordinate in size, and whatever the source, on the board or off it, a bulb
comes to an end without an overflow: more steps than it allows for find no further cells. A source that is not shaded
lights nothing, and one whose neighbors share only a corner with it lights itself. Any other lights just what it has a
clear line to. So cells light each other, and what is lit is joined to the source. -/
theorem bulb_agree (board : Board) (bounded : board.Bounded) (kind : Adjacency) (fixed : kind.Fixed) (source : Cell) :
    ∃ cells, board.bulb source kind = .ok cells ∧ Cell.Increasing cells ∧
      (board.isShaded source = false → cells = []) ∧
      (board.isShaded source = true → kind = .corner → cells = [source]) ∧
      (kind ≠ .corner → ∀ cell, cell ∈ cells ↔ board.Clear kind source cell) ∧
      (board.isShaded source = true → ∀ side steps, board.rows + board.cols ≤ steps →
        board.ray kind side steps source = board.ray kind side (board.rows + board.cols) source) ∧
      (∀ cell, ∃ back, board.bulb cell kind = .ok back ∧ (cell ∈ cells ↔ source ∈ back)) ∧
      ∃ reached, board.reachable source kind = .ok reached ∧ ∀ cell ∈ cells, cell ∈ reached := by
  obtain ⟨cells, found⟩ := exists_bulb bounded fixed source
  have exact (cell : Cell) : cell ∈ cells ↔ board.isShaded source = true ∧ board.Lit kind source cell :=
    mem_bulb found
  have increasing := bulb_increasing found
  refine ⟨cells, found, increasing, fun unshaded => ?_, fun shaded corner => ?_, fun straight cell => ?_,
    fun shaded side steps enough => ?_, fun cell => ?_, ?_⟩
  · exact Except.ok.inj (found.symm.trans (bulb_of_unshaded unshaded))
  · subst corner
    refine increasing.eq (List.pairwise_singleton _ _) fun cell => ?_
    rw [exact, and_iff_right shaded, lit_corner, List.mem_singleton]
  · exact (exact cell).trans (lit_iff fixed straight)
  · have room := room_lt (contains_of_isShaded shaded) side
    exact ray_congr (by omega) room
  · obtain ⟨back, found'⟩ := exists_bulb bounded fixed cell
    exact ⟨back, found', (exact cell).trans ((lit_comm fixed).trans (mem_bulb found').symm)⟩
  · obtain ⟨reached, ended, within⟩ := bounded.reachable_ok fixed source
    refine ⟨reached, ended, fun cell member => (within cell).mpr ?_⟩
    obtain ⟨shaded, lit⟩ := (exact cell).mp member
    exact ⟨shaded, lit.joined shaded⟩

/-- Three cells in a row, with a wall between the first two. -/
theorem bulb_agree_gate : gateBoard.bulb (.of 0 2) .walled = .ok [.of 0 1, .of 0 2] ∧
    gateBoard.Clear .walled (.of 0 2) (.of 0 1) ∧ ¬ gateBoard.Clear .walled (.of 0 2) (.of 0 0) := by
  have lit : gateBoard.bulb (.of 0 2) .walled = .ok [.of 0 1, .of 0 2] := by decide +kernel
  obtain ⟨cells, found, _, _, _, clear_iff, _⟩ :=
    bulb_agree gateBoard ⟨by decide, by decide⟩ .walled Adjacency.fixed_walled (.of 0 2)
  obtain rfl := Except.ok.inj (found.symm.trans lit)
  refine ⟨lit, (clear_iff (by decide) _).mp (by decide), fun clear => ?_⟩
  exact absurd ((clear_iff (by decide) _).mpr clear) (by decide)

end Board

end GridPuzzle
