import GridPuzzle.Board.Group
import GridPuzzle.Proofs.Board.Joined

/-!
Lines of sight. A ray walks through one side from neighbor to neighbor as long as they are shaded, so that a
bulb lights just what such steps reach. What lies in line with the source and beside a lit cell is lit, too.
-/
namespace GridPuzzle.Board

variable {board : Board} {kind : Adjacency} {side : Side} {source cell next target : Cell}

/-- The next cell of a ray: a shaded neighbor behind the side. -/
def Sees (board : Board) (kind : Adjacency) (side : Side) (cell next : Cell) : Prop :=
  side.neighbor cell = .ok next ∧ board.isShaded next = true ∧ board.adjacent cell next kind = .ok true

/-- The cell is the source, or on one of its rays. -/
def Lit (board : Board) (kind : Adjacency) (source cell : Cell) : Prop :=
  ∃ side : Side, Relation.ReflTransGen (board.Sees kind side) source cell

/-- The cell lies in the direction of a side, or in the same place. -/
def Ahead : Side → Cell → Cell → Prop
  | .left, source, cell => cell.row.val = source.row.val ∧ cell.col.val ≤ source.col.val
  | .up, source, cell => cell.row.val ≤ source.row.val ∧ cell.col.val = source.col.val
  | .right, source, cell => cell.row.val = source.row.val ∧ source.col.val ≤ cell.col.val
  | .down, source, cell => source.row.val ≤ cell.row.val ∧ cell.col.val = source.col.val

theorem neighbor_eq_ok : side.neighbor cell = .ok next ↔ match side with
    | .left => next.row.val = cell.row.val ∧ next.col.val = cell.col.val - 1
    | .up => next.row.val = cell.row.val - 1 ∧ next.col.val = cell.col.val
    | .right => next.row.val = cell.row.val ∧ next.col.val = cell.col.val + 1
    | .down => next.row.val = cell.row.val + 1 ∧ next.col.val = cell.col.val := by
  rw [Side.neighbor, Cell.shift_eq_ok]
  cases side with
  | left => exact and_congr_left' (by rw [show Side.left.offset.row.val = 0 from rfl, Int.add_zero])
  | up => exact and_congr_right' (by rw [show Side.up.offset.col.val = 0 from rfl, Int.add_zero])
  | right => exact and_congr_left' (by rw [show Side.right.offset.row.val = 0 from rfl, Int.add_zero])
  | down => exact and_congr_right' (by rw [show Side.down.offset.col.val = 0 from rfl, Int.add_zero])

/-- The number of cells on the board behind a side of a cell. -/
def room (board : Board) (cell : Cell) : Side → Nat
  | .left => cell.col.val.toNat
  | .up => cell.row.val.toNat
  | .right => (board.cols - 1 - cell.col.val).toNat
  | .down => (board.rows - 1 - cell.row.val).toNat

theorem room_lt (inside : board.contains cell = true) (side : Side) :
    board.room cell side < board.rows + board.cols := by
  have bounds := contains_iff.mp inside
  cases side <;> simp only [room] <;> omega

theorem room_neighbor (inside : board.contains next = true) (stepped : side.neighbor cell = .ok next) :
    board.room next side < board.room cell side := by
  have bounds := contains_iff.mp inside
  have moved := neighbor_eq_ok.mp stepped
  cases side <;> simp only [room] at * <;> omega

private theorem ray_succ_eq_ok {steps : Nat} {found : List Cell} :
    board.ray kind side (steps + 1) cell = .ok found ↔ ∃ next seen, side.neighbor cell = .ok next ∧
      (if board.isShaded next then board.adjacent cell next kind else pure false) = .ok seen ∧
      (if seen then (next :: ·) <$> board.ray kind side steps next else pure []) = .ok found := by
  rw [ray, Outcome.bind_eq_ok]
  refine exists_congr fun next => ?_
  split <;> simp only [Outcome.bind_eq_ok, exists_and_left] <;> rfl

private theorem seen_iff {seen : Bool}
    (decided : (if board.isShaded next then board.adjacent cell next kind else pure false) = .ok seen) :
    seen = true ↔ board.isShaded next = true ∧ board.adjacent cell next kind = .ok true := by
  rcases Outcome.ite_eq_ok.mp decided with ⟨shaded, answered⟩ | ⟨unshaded, answered⟩
  · simp [shaded, answered]
  · have same := Outcome.pure_eq_ok.mp answered
    simp [unshaded, ← same]

/-- A ray with steps enough to leave the board finds what its steps lead to. -/
theorem mem_ray {steps : Nat} {found : List Cell} (enough : board.room cell side < steps)
    (walked : board.ray kind side steps cell = .ok found) :
    target ∈ found ↔ Relation.TransGen (board.Sees kind side) cell target := by
  induction steps generalizing cell found with
  | zero => exact absurd enough (Nat.not_lt_zero _)
  | succ steps ih =>
    obtain ⟨next, seen, stepped, decided, rest⟩ := ray_succ_eq_ok.mp walked
    have only {other : Cell} : board.Sees kind side cell other ↔ other = next ∧ seen = true := by
      rw [seen_iff decided, Sees, stepped, Except.ok.injEq]
      constructor
      · rintro ⟨rfl, holds⟩
        exact ⟨rfl, holds⟩
      · rintro ⟨rfl, holds⟩
        exact ⟨rfl, holds⟩
    simp only [Relation.TransGen.head'_iff, only, and_assoc, exists_eq_left]
    cases seen with
    | false =>
      have none : [] = found := Outcome.pure_eq_ok.mp rest
      simp [← none]
    | true =>
      have inside := contains_of_isShaded ((seen_iff decided).mp rfl).1
      have less := room_neighbor inside stepped
      rw [if_pos rfl] at rest
      obtain ⟨others, walkedOn, same⟩ := Outcome.bind_eq_ok.mp rest
      rw [← Outcome.pure_eq_ok.mp same, List.mem_cons, ih (by omega) walkedOn, Relation.reflTransGen_iff_eq_or_transGen,
        and_iff_right rfl]

theorem exists_ray (bounded : board.Bounded) (fixed : kind.Fixed) (side : Side) (steps : Nat)
    (inside : board.contains cell = true) : ∃ found, board.ray kind side steps cell = .ok found := by
  induction steps generalizing cell with
  | zero => exact ⟨[], rfl⟩
  | succ steps ih =>
    obtain ⟨next, stepped⟩ := bounded.exists_step inside (offset_mem_surroundings side)
    have small := small_of_mem_surroundings side.offset (offset_mem_surroundings side)
    have moved := Cell.shift_eq_ok.mp stepped
    obtain ⟨answer, decided⟩ := board.exists_adjacent (a := cell) (b := next) fixed (by omega)
    by_cases shaded : board.isShaded next = true
    · obtain ⟨others, walked⟩ := ih (contains_of_isShaded shaded)
      refine ⟨if answer then next :: others else [], ray_succ_eq_ok.mpr ⟨next, answer, stepped, ?_, ?_⟩⟩
      · rw [if_pos shaded, decided]
      · cases answer with
        | false => rfl
        | true => exact congrArg ((next :: ·) <$> ·) walked
    · exact ⟨[], ray_succ_eq_ok.mpr ⟨next, false, stepped, if_neg shaded, rfl⟩⟩

/-- Any two numbers of steps that are enough to leave the board find the same cells. -/
theorem ray_congr {steps steps' : Nat} (enough : board.room cell side < steps)
    (enough' : board.room cell side < steps') : board.ray kind side steps cell = board.ray kind side steps' cell := by
  induction steps generalizing cell steps' with
  | zero => exact absurd enough (Nat.not_lt_zero _)
  | succ steps ih =>
    obtain ⟨steps', rfl⟩ := Nat.exists_eq_add_one.mpr (Nat.zero_lt_of_lt enough')
    cases stepped : side.neighbor cell with
    | error _ => rw [ray, ray, stepped]; rfl
    | ok next =>
      rw [ray, ray, Outcome.bind_of_ok stepped, Outcome.bind_of_ok stepped]
      by_cases shaded : board.isShaded next = true
      · have less := room_neighbor (contains_of_isShaded shaded) stepped
        have same : board.ray kind side steps next = board.ray kind side steps' next := ih (by omega) (by omega)
        rw [same]
      · simp only [if_neg shaded]
        rfl

/-- A bulb of a shaded source lights what its rays reach, and any other lights nothing. -/
theorem mem_bulb {cells : List Cell} (found : board.bulb source kind = .ok cells) :
    cell ∈ cells ↔ board.isShaded source = true ∧ board.Lit kind source cell := by
  rcases Outcome.ite_eq_ok.mp found with ⟨shaded, found⟩ | ⟨unshaded, found⟩
  · obtain ⟨rays, walked, same⟩ := Outcome.bind_eq_ok.mp found
    have mapped := Outcome.mapM_eq_ok.mp walked
    have inside := contains_of_isShaded shaded
    have onRay : cell ∈ rays.flatten ↔ ∃ side, Relation.TransGen (board.Sees kind side) source cell := by
      rw [List.mem_flatten]
      constructor
      · intro listed
        obtain ⟨ray, member, onRay⟩ := listed
        obtain ⟨side, _, walkedOn⟩ := Outcome.mem_of_forall₂ mapped member
        exact ⟨side, (mem_ray (room_lt inside side) walkedOn).mp onRay⟩
      · intro reached
        obtain ⟨side, path⟩ := reached
        obtain ⟨ray, member, walkedOn⟩ := Outcome.mem_of_forall₂ mapped.flip (Side.mem_all side)
        exact ⟨ray, member, (mem_ray (room_lt inside side) walkedOn).mpr path⟩
    have : Nonempty Side := ⟨.left⟩
    simp only [← Outcome.pure_eq_ok.mp same, Cell.mem_sort, List.mem_cons, onRay, shaded, true_and, Lit,
      Relation.reflTransGen_iff_eq_or_transGen, exists_or, exists_const]
  · simp [← Outcome.pure_eq_ok.mp found, unshaded]

theorem exists_bulb (bounded : board.Bounded) (fixed : kind.Fixed) (source : Cell) :
    ∃ cells, board.bulb source kind = .ok cells := by
  unfold bulb
  split
  · rename_i shaded
    have inside := contains_of_isShaded shaded
    obtain ⟨rays, walked⟩ := Outcome.exists_mapM_ok fun side (_ : side ∈ Side.all) =>
      exists_ray bounded fixed side (board.rows + board.cols) inside
    exact ⟨_, Outcome.bind_of_ok walked _⟩
  · exact ⟨[], rfl⟩

theorem ahead_of_sees (seen : Relation.ReflTransGen (board.Sees kind side) source cell) : Ahead side source cell := by
  induction seen with
  | refl => cases side <;> simp [Ahead]
  | tail _ sees ih =>
    have moved := neighbor_eq_ok.mp sees.1
    cases side <;> simp only [Ahead] at * <;> omega

theorem Ahead.in_line (ahead : Ahead side source cell) :
    cell.row.val = source.row.val ∨ cell.col.val = source.col.val := by
  cases side with
  | left => exact .inl ahead.1
  | up => exact .inr ahead.2
  | right => exact .inl ahead.1
  | down => exact .inr ahead.2

theorem exists_neighbor (near : Adjacency.side.Near cell next) : ∃ side : Side, side.neighbor cell = .ok next := by
  have moved : (next.row.val = cell.row.val ∧ (next.col.val = cell.col.val - 1 ∨ next.col.val = cell.col.val + 1)) ∨
      next.col.val = cell.col.val ∧ (next.row.val = cell.row.val - 1 ∨ next.row.val = cell.row.val + 1) := by
    simp only [Adjacency.Near] at near
    omega
  rcases moved with ⟨rows, left | right⟩ | ⟨cols, up | down⟩
  · exact ⟨.left, neighbor_eq_ok.mpr ⟨rows, left⟩⟩
  · exact ⟨.right, neighbor_eq_ok.mpr ⟨rows, right⟩⟩
  · exact ⟨.up, neighbor_eq_ok.mpr ⟨up, cols⟩⟩
  · exact ⟨.down, neighbor_eq_ok.mpr ⟨down, cols⟩⟩

theorem near_side_of_neighbor (stepped : side.neighbor cell = .ok next) : Adjacency.side.Near cell next := by
  have moved := neighbor_eq_ok.mp stepped
  cases side <;> simp only [Adjacency.Near] at * <;> omega

theorem lit_of_near (near : Adjacency.side.Near source next) (shaded : board.isShaded next = true)
    (adjacent : board.adjacent source next kind = .ok true) : board.Lit kind source next := by
  obtain ⟨side, stepped⟩ := exists_neighbor near
  exact ⟨side, .single ⟨stepped, shaded, adjacent⟩⟩

/-- A cell on an arm shares sides with just two cells in line with the source: the next one and the one before. -/
private theorem next_or_before {before : Cell} (ahead : Ahead side source before)
    (stepped : side.neighbor before = .ok cell) (near : Adjacency.side.Near cell next)
    (inLine : next.row.val = source.row.val ∨ next.col.val = source.col.val) :
    side.neighbor cell = .ok next ∨ next = before := by
  rw [neighbor_eq_ok] at stepped ⊢
  rw [Cell.ext_iff]
  cases side <;> simp only [Ahead, Adjacency.Near] at * <;> omega

/-- A cell that shares a corner with one on an arm and is in line with the source lies on another arm. -/
private theorem near_of_corner {before : Cell} (ahead : Ahead side source before)
    (stepped : side.neighbor before = .ok cell) (near : Adjacency.corner.Near cell next)
    (inLine : next.row.val = source.row.val ∨ next.col.val = source.col.val) : Adjacency.side.Near source next := by
  rw [neighbor_eq_ok] at stepped
  cases side <;> simp only [Ahead, Adjacency.Near] at * <;> omega

private theorem places_in_line {before : Cell} (ahead : Ahead side source before)
    (stepped : side.neighbor before = .ok cell) (nearBefore : kind.Near before cell) (near : kind.Near cell next)
    (inLine : next.row.val = source.row.val ∨ next.col.val = source.col.val) :
    side.neighbor cell = .ok next ∨ next = before ∨ Adjacency.side.Near source next ∧ kind = .around := by
  cases kind with
  | corner =>
    have beside := near_side_of_neighbor stepped
    simp only [Adjacency.Near] at beside nearBefore
    omega
  | around =>
    rcases near with beside | across
    · exact (next_or_before ahead stepped beside inLine).imp_right .inl
    · exact .inr (.inr ⟨near_of_corner ahead stepped across inLine, rfl⟩)
  | side | walled | path | directedPath => exact (next_or_before ahead stepped near inLine).imp_right .inl

/-- Light that spreads to a neighbor in line with the source follows a ray: on an arm it goes one cell on or back,
and where it cuts the corner between two arms, the other arm starts at a neighbor of the source as well. -/
theorem Lit.step (fixed : kind.Fixed) (inside : board.contains source = true)
    (lit : board.Lit kind source cell) (shaded : board.isShaded next = true)
    (adjacent : board.adjacent cell next kind = .ok true)
    (inLine : next.row.val = source.row.val ∨ next.col.val = source.col.val) : board.Lit kind source next := by
  obtain ⟨⟨_, insideNext⟩, near, _⟩ := (adjacent_iff fixed).mp adjacent
  obtain ⟨side, seen⟩ := lit
  rcases Relation.ReflTransGen.cases_tail seen with rfl | ⟨before, seenBefore, sees⟩
  · refine lit_of_near ?_ shaded adjacent
    cases kind <;> simp only [Adjacency.Near] at * <;> omega
  · have nearBefore := ((adjacent_iff fixed).mp sees.2.2).2.1
    rcases places_in_line (ahead_of_sees seenBefore) sees.1 nearBefore near inLine with on | rfl | ⟨nearSource, rfl⟩
    · exact ⟨side, seen.tail ⟨on, shaded, adjacent⟩⟩
    · exact ⟨side, seenBefore⟩
    · exact lit_of_near nearSource shaded ((adjacent_iff fixed).mpr
        ⟨⟨inside, insideNext⟩, .inl nearSource, fun same => absurd same (by decide)⟩)

end GridPuzzle.Board
