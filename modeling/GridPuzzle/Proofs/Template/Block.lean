import GridPuzzle.Template.Block
import GridPuzzle.Proofs.Board.Bends
import GridPuzzle.Proofs.Template.Rectangle
import GridPuzzle.Proofs.Template.Spread

/-!
Colors without rectangles. The rules start their label at the cells of windows that lack the color at one
place. These are the bends of the board, so that the label floods just the groups that bend.
-/
namespace GridPuzzle.Template

variable {board : Board} {color : Color} {world : World} {binding : Binding} {row col : Int} {lacking : Cell}

def corners : List Cell := [.of 0 0, .of 0 1, .of 1 0, .of 1 1]

def bendBody (color : Color) (lacking : Place) : List Literal :=
  [.test (onGrid .here), .test (onGrid (Place.here.step (.of 1 1))), .test (color.off lacking)] ++
    (window.filter (· ≠ lacking)).map fun place => Literal.test (color.on place)

def bendRules (color : Color) : List (Place × List Literal) :=
  window.flatMap fun lacking => (window.filter (· ≠ lacking)).map (·, bendBody color lacking)

theorem noRectangle_eq : noRectangle color =
    spreading (Label.join "no_rect" [.ofColor color]) color .side (bendRules color) := rfl

theorem corner_bounds : ∀ p ∈ corners, (0 ≤ p.row.val ∧ p.row.val ≤ 1) ∧ 0 ≤ p.col.val ∧ p.col.val ≤ 1 := by
  decide

theorem exists_corner {i j : Int} (rows : 0 ≤ i ∧ i ≤ 1) (cols : 0 ≤ j ∧ j ≤ 1) :
    ∃ p ∈ corners, p.row.val = i ∧ p.col.val = j := by
  obtain rfl | rfl : i = 0 ∨ i = 1 := by omega
  all_goals obtain rfl | rfl : j = 0 ∨ j = 1 := by omega
  all_goals decide

theorem mem_window {place : Place} : place ∈ window ↔ ∃ p ∈ corners, place = Place.here.step p := by
  have places : window = corners.map Place.here.step := rfl
  simp only [places, List.mem_map, eq_comm]

theorem step_ne {p : Cell} (member : p ∈ corners) (isCorner : lacking ∈ corners) :
    Place.here.step p ≠ Place.here.step lacking ↔ p ≠ lacking := by
  have apart : ∀ p ∈ corners, ∀ q ∈ corners, Place.here.step p = Place.here.step q ↔ p = q := by decide
  exact not_congr (apart p member lacking isCorner)

theorem mem_bendRules {place : Place} {body : List Literal} : (place, body) ∈ bendRules color ↔
    ∃ lacking ∈ corners, ∃ p ∈ corners, p ≠ lacking ∧ place = Place.here.step p ∧
      body = bendBody color (Place.here.step lacking) := by
  simp only [bendRules, List.mem_flatMap, List.mem_map, List.mem_filter, decide_eq_true_iff, mem_window,
    Prod.mk.injEq]
  constructor
  · intro listed
    obtain ⟨_, ⟨lacking, isCorner, rfl⟩, _, ⟨⟨p, member, rfl⟩, other⟩, rfl, rfl⟩ := listed
    exact ⟨lacking, isCorner, p, member, (step_ne member isCorner).mp other, rfl, rfl⟩
  · intro listed
    obtain ⟨lacking, isCorner, p, member, other, rfl, rfl⟩ := listed
    exact ⟨_, ⟨lacking, isCorner, rfl⟩, _, ⟨⟨p, member, rfl⟩, (step_ne member isCorner).mpr other⟩, rfl, rfl⟩

theorem forall_bendBody {property : Literal → Prop} (isCorner : lacking ∈ corners) :
    (∀ literal ∈ bendBody color (Place.here.step lacking), property literal) ↔
      property (.test (onGrid .here)) ∧ property (.test (onGrid (Place.here.step (.of 1 1)))) ∧
      property (.test (color.off (Place.here.step lacking))) ∧
      ∀ p ∈ corners, p ≠ lacking → property (.test (color.on (Place.here.step p))) := by
  simp only [bendBody, List.cons_append, List.nil_append, List.forall_mem_cons, List.forall_mem_map,
    List.mem_filter, decide_eq_true_iff, mem_window, and_congr_right_iff]
  intro _ _ _
  constructor
  · intro others p member other
    exact others _ ⟨⟨p, member, rfl⟩, (step_ne member isCorner).mpr other⟩
  · intro others place listed
    obtain ⟨⟨p, member, rfl⟩, other⟩ := listed
    exact others p member ((step_ne member isCorner).mp other)

/-- Of the window that starts at a row and a column, only the given corner lacks the color. -/
structure Lacks (board : Board) (color : Color) (row col : Int) (lacking : Cell) : Prop where
  first : board.Covers row col
  last : board.Covers (row + 1) (col + 1)
  shades : ∀ p ∈ corners, (board.colored color).Shades (row + p.row.val) (col + p.col.val) ↔ p ≠ lacking

theorem bendBody_holds (shows : world.Shows board (some color)) {outer : List String}
    (here : Place.Here binding row col) (isCorner : lacking ∈ corners) :
    (∀ literal ∈ bendBody color (Place.here.step lacking), literal.Holds world outer binding) ↔
      Lacks board color row col lacking := by
  have first : (onGrid .here).Holds world binding ↔ board.Covers row col :=
    (holds_cell here.stands).trans shows.grid_cell
  have last : (onGrid (Place.here.step (.of 1 1))).Holds world binding ↔ board.Covers (row + 1) (col + 1) :=
    (holds_cell (here.step_stands _)).trans shows.grid_cell
  have covers {p : Cell} (member : p ∈ corners) (here : board.Covers row col)
      (across : board.Covers (row + 1) (col + 1)) : board.Covers (row + p.row.val) (col + p.col.val) := by
    have bounds := corner_bounds p member
    exact Board.covers_spanned here across (by omega) (by omega)
  have on {p : Cell} (member : p ∈ corners) (here : board.Covers row col)
      (across : board.Covers (row + 1) (col + 1)) :
      color.Matches world (row + p.row.val) (col + p.col.val) ↔
        (board.colored color).Shades (row + p.row.val) (col + p.col.val) := by
    rw [shows.shades_colored, and_iff_right (covers member here across)]
  rw [forall_bendBody isCorner]
  simp only [Literal.Holds, first, last, holds_off color (here.step_stands _), holds_on color (here.step_stands _)]
  constructor
  · intro parts
    obtain ⟨here, across, off, others⟩ := parts
    refine ⟨here, across, fun p member => ⟨fun shades same => ?_, fun other => ?_⟩⟩
    · exact off ((on isCorner here across).mpr (same ▸ shades))
    · exact (on member here across).mp (others p member other)
  · intro lacks
    have on {p : Cell} (member : p ∈ corners) := (on member lacks.first lacks.last).trans (lacks.shades p member)
    exact ⟨lacks.first, lacks.last, fun matched => (on isCorner).mp matched rfl,
      fun p member other => (on member).mpr other⟩

theorem lacks_iff (isCorner : lacking ∈ corners) : Lacks board color row col lacking ↔
    Plane.BendsAt (board.colored color).Shades (row + 1 - lacking.row.val) (col + 1 - lacking.col.val)
      (2 * lacking.row.val - 1) (2 * lacking.col.val - 1) := by
  have bounds := corner_bounds lacking isCorner
  constructor
  · intro lacks
    have shades {r c : Int} (rows : row ≤ r ∧ r ≤ row + 1) (cols : col ≤ c ∧ c ≤ col + 1) :
        (board.colored color).Shades r c ↔ ¬ (r = row + lacking.row.val ∧ c = col + lacking.col.val) := by
      obtain ⟨p, member, down, along⟩ := exists_corner (i := r - row) (j := c - col) (by omega) (by omega)
      obtain rfl : r = row + p.row.val := by omega
      obtain rfl : c = col + p.col.val := by omega
      rw [lacks.shades p member, Int.add_right_inj, Int.add_right_inj]
      exact not_congr ⟨fun same => same ▸ ⟨rfl, rfl⟩, fun same => Cell.ext same.1 same.2⟩
    refine ⟨by omega, by omega, ?_, ?_, ?_, ?_⟩
    · exact (shades (by omega) (by omega)).mpr (by omega)
    · exact (shades (by omega) (by omega)).mpr (by omega)
    · exact (shades (by omega) (by omega)).mpr (by omega)
    · exact fun shaded => (shades (by omega) (by omega)).mp shaded (by omega)
  · intro bends
    have ⟨_, _, here, below, beside, missing⟩ := bends
    have across := Board.covers_crossing below.covers beside.covers
    have covers (r c : Int) := Board.covers_spanned (r := r) (c := c) here.covers across
    simp only [Board.covers_colored] at covers
    refine ⟨covers _ _ (by omega) (by omega), covers _ _ (by omega) (by omega), fun p member => ?_⟩
    have bounds' := corner_bounds p member
    have moved {r c : Int} (shaded : (board.colored color).Shades r c) (rows : row + p.row.val = r)
        (cols : col + p.col.val = c) : (board.colored color).Shades (row + p.row.val) (col + p.col.val) := by
      rw [rows, cols]
      exact shaded
    constructor
    · intro shaded same
      subst same
      exact missing (by convert shaded using 1 <;> omega)
    · intro other
      have apart : p.row.val ≠ lacking.row.val ∨ p.col.val ≠ lacking.col.val := by
        by_contra both
        push Not at both
        exact other (Cell.ext both.1 both.2)
      by_cases level : p.row.val = lacking.row.val
      · exact moved below (by omega) (by omega)
      · by_cases upright : p.col.val = lacking.col.val
        · exact moved beside (by omega) (by omega)
        · exact moved here (by omega) (by omega)

/-- The cell has the color and lies in a window that lacks it at one other place. -/
def AtBend (board : Board) (color : Color) (cell : Cell) : Prop :=
  ∃ row col, ∃ lacking ∈ corners, ∃ p ∈ corners, p ≠ lacking ∧ Lacks board color row col lacking ∧
    cell.row.val = row + p.row.val ∧ cell.col.val = col + p.col.val

theorem AtBend.isShaded {cell : Cell} (atBend : AtBend board color cell) :
    (board.colored color).isShaded cell = true := by
  obtain ⟨row, col, lacking, _, p, member, other, lacks, rows, cols⟩ := atBend
  have shaded := (lacks.shades p member).mpr other
  rw [← rows, ← cols] at shaded
  exact Board.shades_cell.mp shaded

theorem fires_bendRules (shows : world.Shows board (some color)) (label : String) (fact : Fact) :
    Fires world label (bendRules color) fact ↔
      ∃ cell, AtBend board color cell ∧ fact = .cell label cell.row.val cell.col.val := by
  constructor
  · intro fires
    obtain ⟨⟨place, body⟩, listed, binding, denoted, met⟩ := fires
    obtain ⟨lacking, isCorner, p, member, other, rfl, rfl⟩ := mem_bendRules.mp listed
    obtain ⟨row, col, _, here⟩ := shows.onGrid_here.mp ((forall_bendBody isCorner).mp met).1
    have lacks := (bendBody_holds shows here isCorner).mp met
    obtain ⟨cell, _, rows, cols⟩ := (lacks.shades p member).mpr other
    refine ⟨cell, ⟨row, col, lacking, isCorner, p, member, other, lacks, rows, cols⟩, ?_⟩
    rw [rows, cols]
    exact (Atom.denotes_iff (here.step_stands p).args).mp denoted
  · intro atBend
    obtain ⟨cell, ⟨row, col, lacking, isCorner, p, member, other, lacks, rows, cols⟩, rfl⟩ := atBend
    obtain ⟨binding, here⟩ := Place.exists_here row col
    refine ⟨_, mem_bendRules.mpr ⟨lacking, isCorner, p, member, other, rfl, rfl⟩, binding, ?_,
      (bendBody_holds shows here isCorner).mpr lacks⟩
    rw [rows, cols]
    exact (Atom.denotes_iff (here.step_stands p).args).mpr rfl

theorem looks_bendRules (color : Color) : ∀ rule ∈ bendRules color, ∀ literal ∈ rule.2,
    ∀ relation ∈ literal.relations, relation ∈ [Relation.grid, color.name] := by
  intro rule listed
  obtain ⟨lacking, isCorner, p, _, _, _, same⟩ := mem_bendRules.mp listed
  rw [same, forall_bendBody isCorner]
  cases color <;>
    simp [Literal.relations, Test.relations, onGrid, Color.on, Color.off, Color.opposite, Color.name, Atom.cell]

theorem bendRules_starts (board : Board) (color : Color) (label : String) :
    Starts board label color (bendRules color) (AtBend board color) :=
  ⟨looks_bendRules color, fun _ => AtBend.isShaded, fun _ shows => fires_bendRules shows label⟩

theorem covered_atBend {cell : Cell} : Covered (board.colored color) .side (AtBend board color) cell ↔
    (board.colored color).Bent cell := by
  constructor
  · intro covered
    obtain ⟨source, atBend, joined⟩ := covered
    have shaded := atBend.isShaded
    obtain ⟨row, col, lacking, isCorner, p, member, other, lacks, rows, cols⟩ := atBend
    have bends := (lacks_iff isCorner).mp lacks
    obtain ⟨start, shadedStart, rows', cols'⟩ := bends.here
    refine ⟨start, _, _, rows' ▸ cols' ▸ bends, ?_⟩
    have bounds := corner_bounds p member
    have bounds' := corner_bounds lacking isCorner
    by_cases same : source = start
    · exact same ▸ joined
    · -- the other two cells of the window lie beside the corner of the bend
      have apart : ¬ (source.row.val = start.row.val ∧ source.col.val = start.col.val) :=
        fun both => same (Cell.ext both.1 both.2)
      have apart' : ¬ (p.row.val = lacking.row.val ∧ p.col.val = lacking.col.val) :=
        fun both => other (Cell.ext both.1 both.2)
      have near : Adjacency.side.Near start source := by
        change _ + _ = 1
        omega
      exact .head (Board.linked_side.mpr ⟨shadedStart, shaded, near⟩) joined
  · intro bent
    obtain ⟨start, down, along, bends, joined⟩ := bent
    have ⟨one, one', _, _, _, _⟩ := bends
    obtain ⟨lacking, isCorner, rows, cols⟩ := exists_corner (i := (down + 1) / 2) (j := (along + 1) / 2)
      (by omega) (by omega)
    obtain ⟨p, member, rows', cols'⟩ := exists_corner (i := (1 - down) / 2) (j := (1 - along) / 2)
      (by omega) (by omega)
    refine ⟨start, ⟨start.row.val - p.row.val, start.col.val - p.col.val, lacking, isCorner, p, member, ?_,
      (lacks_iff isCorner).mpr ?_, by omega, by omega⟩, joined⟩
    · intro same
      subst same
      omega
    · convert bends using 1 <;> omega

def sideFacts (board : Board) (color : Color) (includeSelf : Bool) : World :=
  (shadingFacts board color).join (board.adjacencyFacts .side includeSelf)

theorem sideFacts_feed (board : Board) {label : String}
    (named : color.name ∉ [Relation.grid, Adjacency.side.relation])
    (apart : ∀ relation ∈ [Relation.grid, color.name, Adjacency.side.relation], label ≠ relation)
    (includeSelf : Bool) :
    Feeds (sideFacts board color includeSelf) board label color .side includeSelf := by
  have notGrid : color.name ≠ Relation.grid := fun same => named (by simp [same])
  have notSide : color.name ≠ Adjacency.side.relation := fun same => named (by simp [same])
  refine ⟨(World.Shows.of_board (some color) ?_).join ?_, fun fact same => or_iff_right ?_, ?_, apart⟩
  · intro own chosen
    cases chosen
    exact notGrid
  · intro fact joins
    rw [Board.adjacencyFacts_relation joins]
    refine ⟨by decide, fun own chosen => ?_⟩
    cases chosen
    exact notSide
  · intro others
    rcases others with isGrid | isColor
    · rw [Board.gridFacts_relation isGrid] at same
      exact absurd same (by decide)
    · exact notSide ((Board.colorFacts_relation isColor).symm.trans same)
  · intro fact isGiven same
    rcases isGiven with (isGrid | isColor) | joins
    · exact apart _ (by simp) (same.symm.trans (Board.gridFacts_relation isGrid))
    · exact apart _ (by simp) (same.symm.trans (Board.colorFacts_relation isColor))
    · exact apart _ (by simp) (same.symm.trans (Board.adjacencyFacts_relation joins))

theorem noRectangle_apart : ∀ relation ∈ [Relation.grid, color.name, Adjacency.side.relation],
    Label.join "no_rect" [.ofColor color] ≠ relation := by
  have prefixed (relation : String) (apart : ¬ "no_rect".toList <+: relation.toList) :
      Label.join "no_rect" [.ofColor color] ≠ relation :=
    fun same => apart (same ▸ Label.base_isPrefix "no_rect" _)
  simp only [List.forall_mem_cons, List.not_mem_nil, false_imp_iff, implies_true, and_true]
  exact ⟨prefixed _ (by decide), Label.join_ne_name (by simp), prefixed _ (by decide)⟩

/-- The rules have one model. Their label is what the bends of the board flood, and their constraint is
broken exactly if some group of the color is a filled rectangle. -/
theorem noRectangle_agree (board : Board) (color : Color) (includeSelf : Bool)
    (small : board.rows * board.cols ≤ 2147483647)
    (named : color.name ∉ [Relation.grid, Adjacency.side.relation]) :
    (∃! world, (noRectangle color).Model (sideFacts board color includeSelf) world) ∧
      ∃ bent answer, (board.colored color).bentGroups = .ok bent ∧
        (board.colored color).noRectangle = .ok answer ∧
        ∀ world, (noRectangle color).Model (sideFacts board color includeSelf) world →
          (∀ fact : Fact, fact.relation = Label.join "no_rect" [.ofColor color] →
            (world fact ↔ ∃ cell ∈ bent,
              fact = .cell (Label.join "no_rect" [.ofColor color]) cell.row.val cell.col.val)) ∧
          ((noRectangle color).Violated world ↔ answer = false) := by
  have starts := bendRules_starts board color (Label.join "no_rect" [.ofColor color])
  have feeds := sideFacts_feed board named noRectangle_apart includeSelf
  have fixed := Adjacency.fixed_side
  have small' : (board.colored color).rows * (board.colored color).cols ≤ 2147483647 := by
    cases color <;> exact small
  obtain ⟨bent, flooded, _, mem_bent⟩ := Board.bentGroups_ok (Board.bounded_of_area small')
  obtain ⟨answer, answered, answer_iff⟩ := Board.noRectangle_ok small'
  rw [noRectangle_eq]
  refine ⟨existsUnique_spreading starts feeds, bent, answer, flooded, answered, fun world model => ⟨?_, ?_⟩⟩
  · intro fact labelled
    simp only [labelled_iff fixed starts feeds model fact labelled, covered_atBend, mem_bent]
  · rw [violated_spreading fixed starts feeds model, ← Bool.not_eq_true, answer_iff]
    simp only [covered_atBend, not_forall, exists_prop]

/-- The white cells bend around the one black cell. -/
def notchBoard : Board := .ofShading 2 2 bentBoard.positive fun row col => row = 0 ∧ col = 0

theorem noRectangle_agree_notch : ∃ world,
    (noRectangle (.negated "black")).Model (sideFacts notchBoard (.negated "black") false) world ∧
    world (.cell (Label.join "no_rect" [.ofColor (.negated "black")]) 1 1) ∧
    ¬ (noRectangle (.negated "black")).Violated world := by
  obtain ⟨⟨world, model, _⟩, bent, answer, flooded, answered, each⟩ :=
    noRectangle_agree notchBoard (.negated "black") false (by decide) (by decide)
  have found : (notchBoard.colored (.negated "black")).bentGroups = .ok [.of 0 1, .of 1 0, .of 1 1] := by
    decide +kernel
  have none : (notchBoard.colored (.negated "black")).noRectangle = .ok true := by decide +kernel
  obtain ⟨labelled, violated⟩ := each world model
  cases flooded.symm.trans found
  cases answered.symm.trans none
  exact ⟨world, model, (labelled _ rfl).mpr ⟨.of 1 1, by simp, rfl⟩,
    fun broken => Bool.noConfusion (violated.mp broken)⟩

end GridPuzzle.Template
