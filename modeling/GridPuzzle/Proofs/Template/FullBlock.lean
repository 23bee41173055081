import GridPuzzle.Template.Block
import GridPuzzle.Proofs.Board.Blocks
import GridPuzzle.Proofs.Rules.Compose
import GridPuzzle.Proofs.Template.Rectangle

/-!
Colors without full blocks. The one constraint asks for the color at every cell of a block, so that it is
broken where the search for a block of that size finds one.
-/
namespace GridPuzzle.Template

open Program (violated_constraint)

variable {board : Board} {color : Color} {world : World} {binding : Binding} {height width : Coord}
  {row col : Int}

/-- What the constraint asks of one cell. A negated color holds off the grid too, so there it asks for the
grid besides. -/
def blockCell (color : Color) (place : Place) : List Literal :=
  (if color.isNegated then [.test (onGrid place)] else []) ++ [.test (color.on place)]

def blockBody (color : Color) (height width : Coord) (start : Place) : List Literal :=
  (blockOffsets height.val.toNat width.val.toNat).flatMap fun (row, col) =>
    blockCell color ⟨start.row.shift row, start.col.shift col⟩

theorem noBlock_ok (tall : 0 < height.val) (wide : 0 < width.val) (corner : Option Cell) :
    noBlock height width color corner =
      .ok ⟨[.constraint (blockBody color height width ((corner.map Place.ofCell).getD .here))]⟩ := by
  have sized : requireCells height width = .ok () := if_neg (by omega)
  rw [noBlock, Outcome.bind_of_ok sized]
  cases color <;> rfl

theorem mem_blockOffsets {height width : Nat} {offset : Nat × Nat} :
    offset ∈ blockOffsets height width ↔ offset.1 < height ∧ offset.2 < width := by
  obtain ⟨down, along⟩ := offset
  simp [blockOffsets]

theorem forall_blockBody {start : Place} {property : Literal → Prop} :
    (∀ literal ∈ blockBody color height width start, property literal) ↔
      ∀ down along : Nat, down < height.val.toNat → along < width.val.toNat →
        ∀ literal ∈ blockCell color ⟨start.row.shift down, start.col.shift along⟩, property literal := by
  simp only [blockBody, List.forall_mem_flatMap, Prod.forall, mem_blockOffsets, and_imp]

section Shows

variable (shows : world.Shows board (some color)) {outer : List String}
include shows

theorem blockCell_holds {place : Place} (stands : place.Stands binding row col) :
    (∀ literal ∈ blockCell color place, literal.Holds world outer binding) ↔
      (board.colored color).Shades row col := by
  have on : (color.on place).Holds world binding ↔ color.Matches world row col := holds_on color stands
  rw [shows.shades_colored]
  cases color with
  | positive name =>
    have covered : Color.Matches world row col (.positive name) → board.Covers row col :=
      fun matched => (shows.color_cell.mp matched).covers
    simp only [blockCell, Color.isNegated, Bool.false_eq_true, if_false, List.nil_append,
      List.forall_mem_singleton, Literal.Holds, on]
    exact (and_iff_right_of_imp covered).symm
  | negated name =>
    have within : (onGrid place).Holds world binding ↔ board.Covers row col :=
      (holds_cell stands).trans shows.grid_cell
    simp only [blockCell, Color.isNegated, if_true, List.forall_mem_append, List.forall_mem_singleton,
      Literal.Holds, on, within]

/-- Where the first cell of a block is asked for, the binding puts it at numbers. -/
theorem here_of_blockCell (met : ∀ literal ∈ blockCell color .here, literal.Holds world outer binding) :
    ∃ row col, Place.Here binding row col := by
  cases color with
  | positive name =>
    have has := holds_here.mp (met (.holds (.cell name .here)) (List.mem_singleton_self _))
    obtain ⟨cell, _, same⟩ := (shows.color _ rfl _ rfl).mp has
    simp only [Fact.cell, Fact.mk.injEq, List.cons.injEq, and_true] at same
    exact ⟨_, _, same.2⟩
  | negated name =>
    obtain ⟨row, col, _, here⟩ := shows.onGrid_here.mp (met _ List.mem_cons_self)
    exact ⟨row, col, here⟩

theorem blockBody_holds {start : Place} (stands : ∀ down along : Int,
      Place.Stands binding ⟨start.row.shift down, start.col.shift along⟩ (row + down) (col + along)) :
    (∀ literal ∈ blockBody color height width start, literal.Holds world outer binding) ↔
      (board.colored color).HasBlock height.val width.val row col := by
  rw [forall_blockBody]
  simp only [blockCell_holds shows (stands _ _)]
  constructor
  · intro met down along rows cols
    have shades := met down.toNat along.toNat (by omega) (by omega)
    rwa [Int.toNat_of_nonneg rows.1, Int.toNat_of_nonneg cols.1] at shades
  · intro block down along rows cols
    exact block down along (by omega) (by omega)

theorem breaks_blockBody (tall : 0 < height.val) (wide : 0 < width.val) :
    Program.Breaks world (blockBody color height width .here) ↔
      ∃ row col, (board.colored color).HasBlock height.val width.val row col := by
  constructor
  · intro broken
    obtain ⟨binding, met⟩ := broken
    obtain ⟨row, col, here⟩ := here_of_blockCell shows (forall_blockBody.mp met 0 0 (by omega) (by omega))
    exact ⟨row, col, (blockBody_holds shows here.shift_stands).mp met⟩
  · intro found
    obtain ⟨row, col, block⟩ := found
    obtain ⟨binding, here⟩ := Place.exists_here row col
    exact ⟨binding, (blockBody_holds shows here.shift_stands).mpr block⟩

theorem breaks_blockBody_at (corner : Cell) :
    Program.Breaks world (blockBody color height width (.ofCell corner)) ↔
      (board.colored color).HasBlock height.val width.val corner.row.val corner.col.val := by
  have stands (binding : Binding) (down along : Int) :
      Place.Stands binding ⟨(Place.ofCell corner).row.shift down, (Place.ofCell corner).col.shift along⟩
        (corner.row.val + down) (corner.col.val + along) := ⟨Term.stands_int _, Term.stands_int _⟩
  constructor
  · intro broken
    obtain ⟨binding, met⟩ := broken
    exact (blockBody_holds shows (stands binding)).mp met
  · intro block
    exact ⟨fun _ => .inf, (blockBody_holds shows (stands _)).mpr block⟩

end Shows

/-- On a board of any size that has coordinates, the search for a block ends without overflow, and the
constraint without a corner is broken exactly if it finds one. With a corner, which may be any cell of the
plane, the constraint is broken exactly if that block lies on the board and is full. Blocks without cells are
on every board. -/
theorem noBlock_agree (board : Board) (color : Color) (height width : Coord) (given : World)
    (shows : given.Shows board (some color)) :
    (height.val ≤ 0 ∨ width.val ≤ 0 → board.containsBlock height width = .ok true) ∧
      (board.Bounded → ∃ answer, (board.colored color).containsBlock height width = .ok answer ∧
        (0 < height.val → 0 < width.val → ∃ body, noBlock height width color none = .ok ⟨[.constraint body]⟩ ∧
          (Program.Violated ⟨[.constraint body]⟩ given ↔ answer = true))) ∧
      (0 < height.val → 0 < width.val → ∀ corner, ∃ body,
        noBlock height width color (some corner) = .ok ⟨[.constraint body]⟩ ∧
          (Program.Violated ⟨[.constraint body]⟩ given ↔
            (board.colored color).HasBlock height.val width.val corner.row.val corner.col.val)) := by
  refine ⟨board.containsBlock_flat, fun bounded => ?_, fun tall wide corner => ?_⟩
  · obtain ⟨answer, ended, answer_iff⟩ :=
      Board.containsBlock_ok (Board.bounded_colored bounded color) height width
    refine ⟨answer, ended, fun tall wide => ⟨_, noBlock_ok tall wide none, ?_⟩⟩
    rw [answer_iff, violated_constraint]
    refine (breaks_blockBody shows tall wide).trans (exists_congr fun row => exists_congr fun col => ?_)
    exact (and_iff_right_of_imp fun block => (block.start tall wide).covers).symm
  · exact ⟨_, noBlock_ok tall wide (some corner), violated_constraint.trans (breaks_blockBody_at shows corner)⟩

/-- The white cells are a block of two by two cells, up to all borders. -/
def marginBoard : Board := .blank 2 2 bentBoard.positive

/-- Past the border nothing is black, and yet no block of white cells goes there. -/
theorem noBlock_agree_margin : ∃ body body',
    noBlock (.of 2) (.of 2) (.negated "black") none = .ok ⟨[.constraint body]⟩ ∧
      Program.Violated ⟨[.constraint body]⟩ (shadingFacts marginBoard (.negated "black")) ∧
      noBlock (.of 2) (.of 2) (.negated "black") (some (.of 0 1)) = .ok ⟨[.constraint body']⟩ ∧
      ¬ Program.Violated ⟨[.constraint body']⟩ (shadingFacts marginBoard (.negated "black")) := by
  have shows : (shadingFacts marginBoard (.negated "black")).Shows marginBoard (some (.negated "black")) := by
    refine World.Shows.of_board (some (.negated "black")) fun own chosen => ?_
    cases chosen
    decide
  obtain ⟨_, anywhere, at_⟩ := noBlock_agree marginBoard (.negated "black") (.of 2) (.of 2) _ shows
  obtain ⟨answer, ended, built⟩ := anywhere ⟨by decide, by decide⟩
  obtain ⟨body, built, violated⟩ := built (by decide) (by decide)
  obtain ⟨body', built', violated'⟩ := at_ (by decide) (by decide) (.of 0 1)
  have found : (marginBoard.colored (.negated "black")).containsBlock (.of 2) (.of 2) = .ok true := by decide +kernel
  refine ⟨body, body', built, violated.mpr (Except.ok.inj (ended.symm.trans found)), built', fun broken => ?_⟩
  have past := violated'.mp broken 0 1 (by decide) (by decide)
  exact absurd past.in_range.2 (by decide)

end GridPuzzle.Template
