import GridPuzzle.Board.Rectangle
import GridPuzzle.Proofs.Board.Facts

/-!
Blocks of shaded cells. A search for a block stops at the first cell that is not shaded, so it never looks
further than one cell past the board, and its answer says whether some block is full.
-/
namespace GridPuzzle.Board

variable {board : Board} {corner : Cell}

/-- Every cell of the block that starts at a row and a column lies on the board and is shaded. -/
def HasBlock (board : Board) (height width row col : Int) : Prop :=
  ∀ down along : Int, (0 ≤ down ∧ down < height) → (0 ≤ along ∧ along < width) →
    board.Shades (row + down) (col + along)

theorem HasBlock.start {height width row col : Int} (block : board.HasBlock height width row col)
    (tall : 0 < height) (wide : 0 < width) : board.Shades row col := by
  have first := block 0 0 ⟨Int.le_refl 0, tall⟩ ⟨Int.le_refl 0, wide⟩
  rwa [Int.add_zero, Int.add_zero] at first

theorem hasBlock_of_flat {height width : Int} (flat : height ≤ 0 ∨ width ≤ 0) (row col : Int) :
    board.HasBlock height width row col := by
  intro down along rows cols
  omega

/-- A test is made only if all before it hold. -/
theorem holdsFrom_ok {test : Nat → Except Error Bool} (property : Nat → Prop) {count first : Nat}
    (each : ∀ number, first ≤ number → number < first + count →
      (∀ earlier, first ≤ earlier → earlier < number → property earlier) →
      ∃ answer, test number = .ok answer ∧ (answer = true ↔ property number)) :
    ∃ answer, holdsFrom test count first = .ok answer ∧
      (answer = true ↔ ∀ number, first ≤ number → number < first + count → property number) := by
  induction count generalizing first with
  | zero => exact ⟨true, rfl, iff_of_true rfl fun number low high => absurd low (by omega)⟩
  | succ count ih =>
    obtain ⟨here, tested, here_iff⟩ := each first (by omega) (by omega) fun earlier low high => by omega
    rw [holdsFrom, Outcome.bind_of_ok tested]
    cases here with
    | false =>
      have fails : ¬ property first := fun holds => Bool.noConfusion (here_iff.mpr holds)
      exact ⟨false, rfl, iff_of_false (nofun) fun all => fails (all first (by omega) (by omega))⟩
    | true =>
      have holds := here_iff.mp rfl
      have later : ∀ number, first + 1 ≤ number → number < first + 1 + count →
          (∀ earlier, first + 1 ≤ earlier → earlier < number → property earlier) →
          ∃ answer, test number = .ok answer ∧ (answer = true ↔ property number) := by
        intro number low high before
        refine each number (by omega) (by omega) fun earlier low less => ?_
        by_cases same : earlier = first
        · exact same ▸ holds
        · exact before earlier (by omega) less
      obtain ⟨answer, ended, answer_iff⟩ := ih later
      refine ⟨answer, ended, answer_iff.trans ⟨fun all number low high => ?_, fun all number low high => ?_⟩⟩
      · by_cases same : number = first
        · exact same ▸ holds
        · exact all number (by omega) (by omega)
      · exact all number (by omega) (by omega)

theorem holdsOfSome_ok {test : Cell → Except Error Bool} (property : Cell → Prop) {cells : List Cell}
    (each : ∀ cell ∈ cells, ∃ answer, test cell = .ok answer ∧ (answer = true ↔ property cell)) :
    ∃ answer, holdsOfSome test cells = .ok answer ∧ (answer = true ↔ ∃ cell ∈ cells, property cell) := by
  induction cells with
  | nil => exact ⟨false, rfl, by simp⟩
  | cons cell rest ih =>
    obtain ⟨here, tested, here_iff⟩ := each cell List.mem_cons_self
    obtain ⟨answer, ended, answer_iff⟩ := ih fun other member => each other (List.mem_cons_of_mem _ member)
    rw [holdsOfSome, Outcome.bind_of_ok tested, List.exists_mem_cons_iff, ← here_iff, ← answer_iff]
    cases here with
    | true => exact ⟨true, rfl, by simp⟩
    | false => exact ⟨answer, ended, by simp⟩

theorem Shades.in_range {row col : Int} (shades : board.Shades row col) :
    row < board.rows ∧ col < board.cols := by
  obtain ⟨cell, shaded, rfl, rfl⟩ := shades
  have bounds := contains_iff.mp (contains_of_isShaded shaded)
  exact ⟨bounds.1.2, bounds.2.2⟩

/-- The cells of one row are looked at until one is not shaded, so that no column is out of range. -/
private theorem row_ok (bounded : board.Bounded) (inside : board.contains corner = true) {down : Nat}
    (row : corner.row.val + down ≤ 2147483647) (width : Nat) : ∃ answer,
      holdsFrom (fun along => do
        let row ← Coord.checked .add (corner.row.val + down)
        let col ← Coord.checked .add (corner.col.val + along)
        pure (board.isShaded ⟨row, col⟩)) width 0 = .ok answer ∧
      (answer = true ↔ ∀ along, 0 ≤ along → along < 0 + width →
        board.Shades (corner.row.val + down) (corner.col.val + along)) := by
  have bounds := contains_iff.mp inside
  unfold Bounded at bounded
  refine holdsFrom_ok (fun along => board.Shades (corner.row.val + down) (corner.col.val + along))
    fun along _ _ before => ?_
  have col : corner.col.val + along ≤ 2147483647 := by
    rcases Nat.eq_zero_or_pos along with rfl | later
    · omega
    · have last := (before (along - 1) (Nat.zero_le _) (by omega)).in_range
      omega
  have rows : -2147483648 ≤ corner.row.val + down ∧ corner.row.val + down ≤ 2147483647 := by omega
  have cols : -2147483648 ≤ corner.col.val + along ∧ corner.col.val + along ≤ 2147483647 := by omega
  have shaded : board.isShaded ⟨⟨_, rows⟩, ⟨_, cols⟩⟩ = true ↔ _ := shades_cell.symm
  refine ⟨_, ?_, shaded⟩
  rw [Coord.checked_ok rows, Coord.checked_ok cols]
  rfl

/-- A block is looked at from any cell of the board without overflow. -/
theorem isBlock_ok (bounded : board.Bounded) (inside : board.contains corner = true) (height : Nat) {width : Nat}
    (wide : 0 < width) : ∃ answer, board.isBlock height width corner = .ok answer ∧
      (answer = true ↔ board.HasBlock height width corner.row.val corner.col.val) := by
  have bounds := contains_iff.mp inside
  have ended : ∃ answer, board.isBlock height width corner = .ok answer ∧
      (answer = true ↔ ∀ down, 0 ≤ down → down < 0 + height → ∀ along, 0 ≤ along → along < 0 + width →
        board.Shades (corner.row.val + down) (corner.col.val + along)) := by
    refine holdsFrom_ok _ fun down _ _ above => row_ok bounded inside ?_ width
    unfold Bounded at bounded
    rcases Nat.eq_zero_or_pos down with rfl | later
    · omega
    · have last := (above (down - 1) (Nat.zero_le _) (by omega) 0 (Nat.le_refl 0) (by omega)).in_range
      omega
  obtain ⟨answer, ended, answer_iff⟩ := ended
  refine ⟨answer, ended, answer_iff.trans ⟨fun all down along rows cols => ?_, ?_⟩⟩
  · have shades := all down.toNat (Nat.zero_le _) (by omega) along.toNat (Nat.zero_le _) (by omega)
    rwa [Int.toNat_of_nonneg rows.1, Int.toNat_of_nonneg cols.1] at shades
  · intro block down _ low along _ left
    exact block down along (by omega) (by omega)

theorem containsBlock_flat (board : Board) {height width : Coord} (flat : height.val ≤ 0 ∨ width.val ≤ 0) :
    board.containsBlock height width = .ok true := if_pos flat

theorem containsBlock_ok (bounded : board.Bounded) (height width : Coord) : ∃ answer,
    board.containsBlock height width = .ok answer ∧ (answer = true ↔ ∃ row col, board.Covers row col ∧
      board.HasBlock height.val width.val row col) := by
  by_cases flat : height.val ≤ 0 ∨ width.val ≤ 0
  · have positive := board.positive
    refine ⟨true, board.containsBlock_flat flat, iff_of_true rfl ⟨0, 0, ?_, hasBlock_of_flat flat 0 0⟩⟩
    exact (covers_iff bounded).mpr (by omega)
  · have tall : ((height.val.toNat : Nat) : Int) = height.val := by omega
    have wide : ((width.val.toNat : Nat) : Int) = width.val := by omega
    have each : ∀ corner ∈ board.locations, ∃ answer,
        board.isBlock height.val.toNat width.val.toNat corner = .ok answer ∧
          (answer = true ↔ board.HasBlock height.val width.val corner.row.val corner.col.val) := by
      intro corner member
      rw [← tall, ← wide]
      exact isBlock_ok bounded (mem_locations.mp member) _ (by omega)
    obtain ⟨answer, ended, answer_iff⟩ := holdsOfSome_ok _ each
    refine ⟨answer, (if_neg flat).trans ended, answer_iff.trans ⟨fun found => ?_, fun found => ?_⟩⟩
    · obtain ⟨corner, member, block⟩ := found
      exact ⟨_, _, covers_cell.mpr (mem_locations.mp member), block⟩
    · obtain ⟨_, _, ⟨corner, inside, rfl, rfl⟩, block⟩ := found
      exact ⟨corner, mem_locations.mpr inside, block⟩

end GridPuzzle.Board
