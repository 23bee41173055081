import GridPuzzle.Proofs.Board.Boxes

/-!
Groups that bend. A group is no rectangle exactly if some window of two rows and two columns holds three of
its cells, so that what such windows flood are the groups that are no rectangles.
-/
namespace GridPuzzle.Board

variable {board : Board} {corner : Cell}

private theorem window_ok (bounded : board.Bounded) (inside : board.contains corner = true) :
    ∃ beside below across : Cell,
      [Cell.of 0 0, .of 0 1, .of 1 0, .of 1 1].mapM corner.shift = .ok [corner, beside, below, across] ∧
      (beside.row.val = corner.row.val ∧ beside.col.val = corner.col.val + 1) ∧
      (below.row.val = corner.row.val + 1 ∧ below.col.val = corner.col.val) ∧
      across.row.val = corner.row.val + 1 ∧ across.col.val = corner.col.val + 1 := by
  have bounds := contains_iff.mp inside
  have sizes := bounded
  unfold Bounded at sizes
  have step (row col : Int8) (low : 0 ≤ (Coord.of row).val ∧ (Coord.of row).val ≤ 1)
      (left : 0 ≤ (Coord.of col).val ∧ (Coord.of col).val ≤ 1) :
      ∃ next, corner.shift (.of row col) = .ok next := by
    rw [Cell.exists_shift_iff]
    simp only [Cell.of]
    omega
  obtain ⟨beside, toBeside⟩ := step 0 1 (by decide) (by decide)
  obtain ⟨below, toBelow⟩ := step 1 0 (by decide) (by decide)
  obtain ⟨across, toAcross⟩ := step 1 1 (by decide) (by decide)
  have still : corner.shift (.of 0 0) = .ok corner :=
    Cell.shift_eq_ok.mpr ⟨(Int.add_zero _).symm, (Int.add_zero _).symm⟩
  refine ⟨beside, below, across, ?_, ?_, ?_, ?_⟩
  · rw [Outcome.mapM_eq_ok]
    exact .cons still (.cons toBeside (.cons toBelow (.cons toAcross .nil)))
  · have moved := Cell.shift_eq_ok.mp toBeside
    exact ⟨moved.1.trans (Int.add_zero _), moved.2⟩
  · have moved := Cell.shift_eq_ok.mp toBelow
    exact ⟨moved.1, moved.2.trans (Int.add_zero _)⟩
  · exact Cell.shift_eq_ok.mp toAcross

/-- The cells are a start, the ones below and beside it, and the fourth one of their window. -/
private theorem bendsAt_cells {start below beside fourth : Cell} {down along : Int}
    (one : down.natAbs = 1) (one' : along.natAbs = 1)
    (under : below.row.val = start.row.val + down ∧ below.col.val = start.col.val)
    (next : beside.row.val = start.row.val ∧ beside.col.val = start.col.val + along)
    (last : fourth.row.val = start.row.val + down ∧ fourth.col.val = start.col.val + along) :
    Plane.BendsAt board.Shades start.row.val start.col.val down along ↔
      board.isShaded start = true ∧ board.isShaded below = true ∧ board.isShaded beside = true ∧
        board.isShaded fourth = false := by
  have here : board.Shades start.row.val start.col.val ↔ board.isShaded start = true := shades_cell
  have isBelow : board.Shades (start.row.val + down) start.col.val ↔ board.isShaded below = true := by
    rw [← under.1, ← under.2, shades_cell]
  have isBeside : board.Shades start.row.val (start.col.val + along) ↔ board.isShaded beside = true := by
    rw [← next.1, ← next.2, shades_cell]
  have isFourth : board.Shades (start.row.val + down) (start.col.val + along) ↔
      board.isShaded fourth = true := by
    rw [← last.1, ← last.2, shades_cell]
  rw [← here, ← isBelow, ← isBeside, ← Bool.not_eq_true, ← isFourth]
  exact ⟨fun bends => ⟨bends.here, bends.below, bends.beside, bends.missing⟩,
    fun parts => ⟨one, one', parts.1, parts.2.1, parts.2.2.1, parts.2.2.2⟩⟩

/-- The cell is shaded and lies at a bend, as its corner or beside it. -/
private def AtBend (board : Board) (cell : Cell) : Prop :=
  board.isShaded cell = true ∧ ∃ (start : Cell) (down along : Int),
    Plane.BendsAt board.Shades start.row.val start.col.val down along ∧
      (cell = start ∨ Adjacency.side.Near start cell)

private theorem length_filter_eq_three {test : Cell → Bool} {a b c d : Cell} :
    ([a, b, c, d].filter test).length = 3 ↔
      (test a = true ∧ test c = true ∧ test b = true ∧ test d = false) ∨
      (test b = true ∧ test d = true ∧ test a = true ∧ test c = false) ∨
      (test c = true ∧ test a = true ∧ test d = true ∧ test b = false) ∨
      (test d = true ∧ test b = true ∧ test c = true ∧ test a = false) := by
  cases first : test a <;> cases second : test b <;> cases third : test c <;> cases fourth : test d <;>
    simp [first, second, third, fourth]

private theorem bend_ok (bounded : board.Bounded) (inside : board.contains corner = true) :
    ∃ cells, board.bend corner = .ok cells ∧ ∀ cell ∈ cells, board.AtBend cell := by
  obtain ⟨beside, below, across, window, besideAt, belowAt, acrossAt⟩ := window_ok bounded inside
  refine ⟨_, Outcome.bind_of_ok window _, ?_⟩
  intro cell member
  obtain ⟨⟨_, three⟩, listed⟩ := List.mem_ite_nil_right.mp member
  obtain ⟨inWindow, shaded⟩ := List.mem_filter.mp listed
  simp only [List.mem_cons, List.not_mem_nil, or_false] at inWindow
  have found {start under next fourth : Cell} (down along : Int) (one : down.natAbs = 1) (one' : along.natAbs = 1)
      (rows : under.row.val = start.row.val + down ∧ under.col.val = start.col.val)
      (cols : next.row.val = start.row.val ∧ next.col.val = start.col.val + along)
      (last : fourth.row.val = start.row.val + down ∧ fourth.col.val = start.col.val + along)
      (parts : board.isShaded start = true ∧ board.isShaded under = true ∧ board.isShaded next = true ∧
        board.isShaded fourth = false)
      (among : cell = start ∨ cell = under ∨ cell = next ∨ cell = fourth) : board.AtBend cell := by
    refine ⟨shaded, start, down, along, (bendsAt_cells one one' rows cols last).mpr parts, ?_⟩
    rcases among with same | rfl | rfl | rfl
    · exact .inl same
    · exact .inr (by change _ + _ = 1; omega)
    · exact .inr (by change _ + _ = 1; omega)
    · exact absurd shaded (by simp [parts.2.2.2])
  rcases length_filter_eq_three.mp three with parts | parts | parts | parts
  · exact found 1 1 rfl rfl belowAt besideAt acrossAt parts (by tauto)
  · exact found 1 (-1) rfl rfl (by omega) (by omega) (by omega) parts (by tauto)
  · exact found (-1) 1 rfl rfl (by omega) (by omega) (by omega) parts (by tauto)
  · exact found (-1) (-1) rfl rfl (by omega) (by omega) (by omega) parts (by tauto)

private theorem exists_bend (bounded : board.Bounded) {start : Cell} {down along : Int}
    (bends : Plane.BendsAt board.Shades start.row.val start.col.val down along) :
    ∃ corner cells, board.contains corner = true ∧ board.bend corner = .ok cells ∧ start ∈ cells := by
  have fourth := covers_crossing bends.below.covers bends.beside.covers
  have spans (r c : Int) := covers_spanned (r := r) (c := c) bends.here.covers fourth
  have ⟨one, one', _, _, _, _⟩ := bends
  obtain ⟨corner, inside, rows, cols⟩ := spans (min start.row.val (start.row.val + down))
    (min start.col.val (start.col.val + along)) (by omega) (by omega)
  obtain ⟨beside, below, across, window, besideAt, belowAt, acrossAt⟩ := window_ok bounded inside
  have contained : [corner, beside, below, across].all board.contains = true := by
    simp only [List.all_cons, List.all_nil, Bool.and_true, Bool.and_eq_true, ← covers_cell]
    exact ⟨spans _ _ (by omega) (by omega), spans _ _ (by omega) (by omega), spans _ _ (by omega) (by omega),
      spans _ _ (by omega) (by omega)⟩
  have three : start ∈ [corner, beside, below, across] ∧
      ([corner, beside, below, across].filter board.isShaded).length = 3 := by
    rw [length_filter_eq_three]
    -- the start is the corner of the window that lies across from the missing cell
    rcases (by omega : down = 1 ∨ down = -1) with rfl | rfl <;>
      rcases (by omega : along = 1 ∨ along = -1) with rfl | rfl
    · have same : start = corner := Cell.ext (by omega) (by omega)
      subst same
      exact ⟨by simp, .inl ((bendsAt_cells rfl rfl belowAt besideAt acrossAt).mp bends)⟩
    · have same : start = beside := Cell.ext (by omega) (by omega)
      subst same
      exact ⟨by simp, .inr (.inl ((bendsAt_cells rfl rfl (by omega) (by omega) (by omega)).mp bends))⟩
    · have same : start = below := Cell.ext (by omega) (by omega)
      subst same
      exact ⟨by simp, .inr (.inr (.inl ((bendsAt_cells rfl rfl (by omega) (by omega) (by omega)).mp bends)))⟩
    · have same : start = across := Cell.ext (by omega) (by omega)
      subst same
      exact ⟨by simp, .inr (.inr (.inr ((bendsAt_cells rfl rfl (by omega) (by omega) (by omega)).mp bends)))⟩
  refine ⟨corner, _, inside, Outcome.bind_of_ok window _, ?_⟩
  exact List.mem_ite_nil_right.mpr ⟨⟨contained, three.2⟩,
    List.mem_filter.mpr ⟨three.1, shades_cell.mp bends.here⟩⟩

/-- The cell is joined to the corner of some bend. -/
def Bent (board : Board) (cell : Cell) : Prop :=
  ∃ (start : Cell) (down along : Int),
    Plane.BendsAt board.Shades start.row.val start.col.val down along ∧ board.Joined .side start cell

theorem Bent.isShaded {cell : Cell} (bent : board.Bent cell) : board.isShaded cell = true := by
  obtain ⟨start, _, _, bends, joined⟩ := bent
  exact joined.isShaded (shades_cell.mp bends.here)

/-- What the bends flood is found. -/
theorem bentGroups_ok (bounded : board.Bounded) :
    ∃ bent, board.bentGroups = .ok bent ∧ Cell.Increasing bent ∧ ∀ cell, cell ∈ bent ↔ board.Bent cell := by
  have each : ∀ corner ∈ board.locations, ∃ cells, board.bend corner = .ok cells := by
    intro corner member
    obtain ⟨cells, found, _⟩ := bend_ok bounded (mem_locations.mp member)
    exact ⟨cells, found⟩
  obtain ⟨bends, found⟩ := Outcome.exists_mapM_ok each
  have listed := Outcome.mapM_eq_ok.mp found
  obtain ⟨graph, built, graphOf⟩ := bounded.graph_ok Adjacency.fixed_side
  refine ⟨joinedTo graph bends.flatten, ?_, Cell.sort_increasing _, fun cell => ?_⟩
  · rw [bentGroups, Outcome.bind_of_ok found, built]
    rfl
  · rw [graphOf.mem_joinedTo]
    apply Iff.intro
    · intro reached
      obtain ⟨source, member, shaded, joined⟩ := reached
      obtain ⟨cells, inBends, inCells⟩ := List.mem_flatten.mp member
      obtain ⟨corner, onBoard, bent⟩ := Outcome.mem_of_forall₂ listed inBends
      obtain ⟨others, bent', sound⟩ := bend_ok bounded (mem_locations.mp onBoard)
      cases bent.symm.trans bent'
      obtain ⟨_, start, down, along, bends, same | near⟩ := sound source inCells
      · exact ⟨start, down, along, bends, same ▸ joined⟩
      · have linked := linked_side.mpr ⟨shades_cell.mp bends.here, shaded, near⟩
        exact ⟨start, down, along, bends, .head linked joined⟩
    · intro reached
      obtain ⟨start, down, along, bends, joined⟩ := reached
      obtain ⟨corner, cells, inside, bent, member⟩ := exists_bend bounded bends
      obtain ⟨others, inBends, bent'⟩ := Outcome.mem_of_forall₂ listed.flip (mem_locations.mpr inside)
      cases bent.symm.trans bent'
      exact ⟨start, List.mem_flatten.mpr ⟨cells, inBends, member⟩, shades_cell.mp bends.here, joined⟩

private theorem filledNone_ok {groups : List (List Cell)} (each : ∀ group ∈ groups, ∃ found,
      filled? group = .ok found ∧ (found.isSome = true ↔ Fills group)) :
    ∃ answer, filledNone groups = .ok answer ∧ (answer = true ↔ ∀ group ∈ groups, ¬ Fills group) := by
  induction groups with
  | nil => exact ⟨true, rfl, by simp⟩
  | cons group rest ih =>
    obtain ⟨here, found, exact⟩ := each group List.mem_cons_self
    obtain ⟨answer, ended, exactRest⟩ := ih fun other member => each other (List.mem_cons_of_mem _ member)
    rw [List.forall_mem_cons, ← exact, ← exactRest, filledNone, Outcome.bind_of_ok found]
    cases here with
    | none => exact ⟨answer, ended, by simp⟩
    | some rectangle => exact ⟨false, rfl, by simp⟩

theorem bent_iff {group : List Cell} {first cell : Cell} (shaded : board.isShaded first = true)
    (isClass : ∀ cell, cell ∈ group ↔ board.Joined .side first cell) (inGroup : cell ∈ group) :
    board.Bent cell ↔ ¬ Fills group := by
  have joined := (isClass cell).mp inGroup
  rw [fills_iff shaded isClass]
  constructor
  · intro bent none
    obtain ⟨start, down, along, bends, joined'⟩ := bent
    have startIn := (isClass start).mpr (joined.trans (joined'.symm Adjacency.fixed_side))
    exact none _ _ down along (plots_cell.mpr startIn) bends
  · intro some
    push Not at some
    obtain ⟨_, _, down, along, ⟨start, startIn, rfl, rfl⟩, bends⟩ := some
    exact ⟨start, down, along, bends, (((isClass start).mp startIn).symm Adjacency.fixed_side).trans joined⟩

theorem noRectangle_ok (small : board.rows * board.cols ≤ 2147483647) : ∃ answer,
    board.noRectangle = .ok answer ∧ (answer = true ↔ ∀ cell, board.isShaded cell = true → board.Bent cell) := by
  obtain ⟨groups, grouped, classes, covered⟩ := groups_ok small
  obtain ⟨answer, answered, answer_iff⟩ := filledNone_ok fun group member => (classes group member).2.2
  refine ⟨answer, (Outcome.bind_of_ok grouped _).trans answered, answer_iff.trans ⟨?_, ?_⟩⟩
  · intro unfilled cell shaded
    obtain ⟨group, isGroup, inGroup⟩ := covered cell shaded
    obtain ⟨_, ⟨first, shadedFirst, isClass⟩, _⟩ := classes group isGroup
    exact (bent_iff shadedFirst isClass inGroup).mpr (unfilled group isGroup)
  · intro all group isGroup
    obtain ⟨_, ⟨first, shadedFirst, isClass⟩, _⟩ := classes group isGroup
    have inGroup := (isClass first).mpr .refl
    exact (bent_iff shadedFirst isClass inGroup).mp (all first shadedFirst)

/-- The groups that bend are found without overflow, and they are just the groups that are no filled
rectangles. They are all shaded cells exactly if no group is a rectangle, and none exactly if every group is. -/
theorem bentGroups_agree (board : Board) (small : board.rows * board.cols ≤ 2147483647) :
    ∃ bent groups, board.bentGroups = .ok bent ∧ board.components .side = .ok groups ∧
      (∀ group ∈ groups, ∃ found, filled? group = .ok found ∧ (found.isSome = true ↔ Fills group)) ∧
      Cell.Increasing bent ∧
      (∀ cell, cell ∈ bent ↔ ∃ group ∈ groups, filled? group = .ok none ∧ cell ∈ group) ∧
      (∃ answer, board.noRectangle = .ok answer ∧ (answer = true ↔ bent = board.shadedCells)) ∧
      ∃ found, board.rectangles = .ok found ∧ (found.isSome = true ↔ bent = []) := by
  obtain ⟨groups, grouped, classes, covered⟩ := groups_ok small
  obtain ⟨bent, ended, increasing, exact⟩ := bentGroups_ok (bounded_of_area small)
  have each := fun group member => (classes group member).2.2
  obtain ⟨answer, answered, answer_iff⟩ := noRectangle_ok small
  obtain ⟨found, decided, found_iff⟩ := rectangles_ok grouped each
  have inBent : ∀ group ∈ groups, ∀ cell ∈ group, (cell ∈ bent ↔ ¬ Fills group) := by
    intro group member cell inGroup
    obtain ⟨_, ⟨first, shaded, isClass⟩, _⟩ := classes group member
    rw [exact, bent_iff shaded isClass inGroup]
  have firstOf : ∀ group ∈ groups, ∃ first ∈ group, board.isShaded first = true := by
    intro group member
    obtain ⟨_, ⟨first, shaded, isClass⟩, _⟩ := classes group member
    exact ⟨first, (isClass first).mpr .refl, shaded⟩
  refine ⟨bent, groups, ended, grouped, each, increasing, ?_, ⟨answer, answered, ?_⟩, found, decided, ?_⟩
  · intro cell
    have unfilled : ∀ group ∈ groups, filled? group = .ok none ↔ ¬ Fills group := by
      intro group member
      obtain ⟨here, decided, exact⟩ := each group member
      rw [← exact, decided]
      cases here <;> simp
    constructor
    · intro member
      obtain ⟨group, isGroup, inGroup⟩ := covered cell ((exact cell).mp member).isShaded
      exact ⟨group, isGroup, (unfilled group isGroup).mpr ((inBent group isGroup cell inGroup).mp member), inGroup⟩
    · intro grouped
      obtain ⟨group, isGroup, none, inGroup⟩ := grouped
      exact (inBent group isGroup cell inGroup).mpr ((unfilled group isGroup).mp none)
  · rw [answer_iff]
    constructor
    · intro all
      refine increasing.eq ((locations_increasing board).filter _) fun cell => ?_
      exact (exact cell).trans (Iff.trans ⟨Bent.isShaded, all cell⟩ mem_shadedCells.symm)
    · intro same cell shaded
      exact (exact cell).mp (same ▸ mem_shadedCells.mpr shaded)
  · rw [found_iff]
    constructor
    · intro filled
      refine List.eq_nil_iff_forall_not_mem.mpr fun cell member => ?_
      obtain ⟨group, isGroup, inGroup⟩ := covered cell ((exact cell).mp member).isShaded
      exact (inBent group isGroup cell inGroup).mp member (filled group isGroup)
    · intro none group isGroup
      obtain ⟨first, inGroup, _⟩ := firstOf group isGroup
      by_contra unfilled
      have bent := (inBent group isGroup first inGroup).mpr unfilled
      simp [none] at bent

/-- Three cells around a corner, and beside them two cells that fill their box. -/
def elbowBoard : Board := .ofShading 2 4 (by decide) fun row col => col = 3 ∨ row + col < 2

theorem bentGroups_agree_elbow :
    elbowBoard.bentGroups = .ok [.of 0 0, .of 0 1, .of 1 0] ∧ elbowBoard.noRectangle = .ok false ∧
      ∃ groups group, elbowBoard.components .side = .ok groups ∧ group ∈ groups ∧ .of 1 0 ∈ group ∧
        filled? group = .ok none := by
  obtain ⟨bent, groups, ended, grouped, _, _, bent_iff, ⟨answer, answered, all_iff⟩, _⟩ :=
    bentGroups_agree elbowBoard (by decide)
  have found : elbowBoard.bentGroups = .ok [.of 0 0, .of 0 1, .of 1 0] := by decide +kernel
  have same : bent = [.of 0 0, .of 0 1, .of 1 0] := Except.ok.inj (ended.symm.trans found)
  have some : answer ≠ true := fun all => absurd (same.symm.trans (all_iff.mp all)) (by decide +kernel)
  obtain ⟨group, member, unfilled, inGroup⟩ := (bent_iff (.of 1 0)).mp (same ▸ by decide)
  refine ⟨found, ?_, groups, group, grouped, member, inGroup, unfilled⟩
  rw [answered, Bool.eq_false_iff.mpr some]

end GridPuzzle.Board
