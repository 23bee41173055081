import GridPuzzle.Proofs.Plane.Flow
import GridPuzzle.Proofs.Template.Course

/-!
Loops with a direction. The rules accept just those sides that let the cells of a color flow: each is entered once and
left once, or, where a path is asked for, a single one is not entered and another one is not left. Such cells lie on
cycles, and on the one path that is asked for.
-/
namespace GridPuzzle.Template

variable {rows cols : Nat} {course entering leaving : Course rows cols} {given world : World} {color : Color}
  {path : Bool} {marker relation : String}

/-- The marks of the two ends of a path, and the relations that have no side there. -/
def pathEnds : List (String × String) := [(pathStart, Relation.enters), (pathEnd, Relation.leaves)]

theorem start_mem : (pathStart, Relation.enters) ∈ pathEnds := by decide

theorem end_mem : (pathEnd, Relation.leaves) ∈ pathEnds := by decide

theorem rule_mem_directed {head : Atom} {body : List Literal} :
    .rule head body ∈ (freePath color true ++ directedLoop color path).statements ↔
      path = true ∧ ∃ ends ∈ pathEnds, head = .cell ends.1 .here ∧
        body = [.test (onGrid .here), .test (color.on .here), degree ends.2 .eq 0] := by
  cases path <;>
    simp [Program.statements_append, freePath, pickSides, directedLoop, markedEnd, pathEnds, answered]

theorem fact_mem_directed {atom : Atom} :
    .fact atom ∉ (freePath color true ++ directedLoop color path).statements := by
  cases path <;> simp [Program.statements_append, freePath, pickSides, directedLoop, markedEnd, answered]

theorem constraint_mem_directed {body : List Literal} :
    .constraint body ∈ (freePath color true ++ directedLoop color path).statements ↔
      (∃ ends ∈ pathEnds, body = [.test (onGrid .here),
        .holds ⟨ends.2, Place.here.args ++ [.anon]⟩, .test (color.off .here)]) ∨
      (path = false ∧ ∃ ends ∈ pathEnds,
        body = [.test (onGrid .here), .test (color.on .here), degree ends.2 .ne 1]) ∨
      (path = true ∧ ((∃ ends ∈ pathEnds,
          body = [.count ⟨Place.here.args.map .term, [.holds (.cell ends.1 .here)]⟩ .ne 1] ∨
          body = [.test (onGrid .here), .test (color.on .here), degree ends.2 .gt 1]) ∨
        body = [.holds (.cell pathStart .here), .holds (.cell pathEnd .here)])) ∨
      body = [.test (onGrid .here), .holds ⟨Relation.enters, Place.here.args ++ [anySide]⟩,
        .holds ⟨Relation.leaves, Place.here.args ++ [anySide]⟩] ∨
      ∃ side : Side, body = [.test (onGrid .here), .holds (side.fact Relation.enters .here),
          .fails (side.opposite.fact Relation.leaves (Place.here.step side.offset))] ∨
        body = [.test (onGrid .here), .holds (side.fact Relation.leaves .here),
          .fails (side.opposite.fact Relation.enters (Place.here.step side.offset))] := by
  have sides (goal : Side → Prop) : (∃ side ∈ Side.all, goal side) ↔ ∃ side, goal side :=
    exists_congr fun side => and_iff_right side.mem_all
  cases path <;>
    simp [Program.statements_append, freePath, pickSides, directedLoop, markedEnd, pathEnds, answered, sides,
      or_assoc, @eq_comm _ body]

theorem defines_directed {relation : String}
    (defines : (freePath color true ++ directedLoop color path).Defines relation) :
    relation ∈ [pathStart, pathEnd] := by
  rcases defines with ⟨atom, statement, _⟩ | ⟨head, body, statement, rfl⟩
  · exact absurd statement fact_mem_directed
  · obtain ⟨_, ends, listed, rfl, _⟩ := rule_mem_directed.mp statement
    exact List.mem_map_of_mem (f := Prod.fst) listed

theorem draws_of_directed (model : (freePath color true ++ directedLoop color path).Model given world)
    (draws : given.Draws relation course) (other : relation ∉ [pathStart, pathEnd]) : world.Draws relation course :=
  draws.of_model model (fun defines => absurd (defines_directed defines) (by decide))
    fun defines => other (defines_directed defines)

private theorem existsUnique_directed (named : color.name ∉ [pathStart, pathEnd]) :
    ∃! world, (freePath color true ++ directedLoop color path).Model given world := by
  apply Program.existsUnique_model_of_lower [Relation.grid, Relation.enters, Relation.leaves, color.name]
  · intro relation lower defines
    have marks := defines_directed defines
    have fixed : ∀ relation ∈ [Relation.grid, Relation.enters, Relation.leaves],
        relation ∉ [pathStart, pathEnd] := by decide
    rcases List.mem_append.mp (show relation ∈ [Relation.grid, Relation.enters, Relation.leaves] ++ [color.name]
      from lower) with isFixed | isName
    · exact fixed relation isFixed marks
    · exact named (List.mem_singleton.mp isName ▸ marks)
  · intro head body statement literal member _ relation looked
    obtain ⟨_, ends, listed, _, rfl⟩ := rule_mem_directed.mp statement
    have onName : Literal.relations (.test (color.on .here)) = [color.name] := by cases color <;> rfl
    rcases List.mem_pair.mp listed with rfl | rfl <;>
      simp only [List.mem_cons, List.not_mem_nil, or_false] at member <;>
      rcases member with rfl | rfl | rfl <;>
      simp_all [degree, onGrid, Atom.cell, Literal.relations, Test.relations]

theorem above_one {count : Nat} : Comparator.gt.holds count 1 = true ↔ ¬ count ≤ 1 := by
  rw [Comparator.holds, decide_eq_true_eq]
  omega

theorem breaks_degree (drawn : world.Draws relation course) (color : Color) (comparator : Comparator) (bound : Int) :
    Program.Breaks world [.test (onGrid .here), .test (color.on .here), degree relation comparator bound] ↔
      ∃ row col, InGrid rows cols row col ∧ color.Matches world row col ∧
        comparator.holds (course.degree row col) bound = true := by
  refine drawn.breaks_iff fun binding row col here => ?_
  have outer : ["R", "C"] ++ [Literal.test (color.on .here), degree relation comparator bound].flatMap Literal.outer =
      ["R", "C", "R", "C"] := by cases color <;> rfl
  rw [List.forall_mem_cons, List.forall_mem_singleton, outer]
  exact and_congr (holds_on color here.stands) (drawn.degree_holds (by decide) (by decide) here comparator bound)

theorem breaks_sameSide (enters : world.Draws Relation.enters entering) (leaves : world.Draws Relation.leaves leaving) :
    Program.Breaks world [.test (onGrid .here), .holds ⟨Relation.enters, Place.here.args ++ [anySide]⟩,
        .holds ⟨Relation.leaves, Place.here.args ++ [anySide]⟩] ↔
      ∃ row col side, entering.passes row col side = true ∧ leaving.passes row col side = true := by
  have stands {binding : Binding} {row col : Int} (here : Place.Here binding row col) :
      StandAll binding (Place.here.args ++ [anySide]) [.num row, .num col, binding "D"] :=
    .cons here.stands.1 (.cons here.stands.2 (.cons (Term.stands_var "D") .nil))
  constructor
  · intro broken
    obtain ⟨binding, met⟩ := broken
    rw [List.forall_mem_cons, List.forall_mem_cons, List.forall_mem_singleton] at met
    obtain ⟨onGrid, entered, left⟩ := met
    obtain ⟨row, col, _, here⟩ := enters.onGrid_here.mp onGrid
    obtain ⟨row', col', side, passed, same⟩ := (enters.sides _ rfl).mp ((Test.holds_iff (stands here)).mp entered)
    obtain ⟨row'', col'', side', passed', same'⟩ := (leaves.sides _ rfl).mp ((Test.holds_iff (stands here)).mp left)
    simp only [Fact.through, Fact.mk.injEq, List.cons.injEq, Value.num.injEq, and_true, true_and] at same same'
    obtain ⟨rfl, rfl, isSide⟩ := same
    obtain ⟨rfl, rfl, isSide'⟩ := same'
    -- one variable stands for the side in both tests
    cases Side.letter_injective (Value.str.inj (isSide.symm.trans isSide'))
    exact ⟨row, col, side, passed, passed'⟩
  · intro found
    obtain ⟨row, col, side, passed, passed'⟩ := found
    let binding : Binding := fun name => if name = "D" then .str side.letter else
      if name = "R" then .num row else .num col
    have here : Place.Here binding row col := ⟨rfl, rfl⟩
    refine ⟨binding, ?_⟩
    rw [List.forall_mem_cons, List.forall_mem_cons, List.forall_mem_singleton]
    exact ⟨enters.onGrid_here.mpr ⟨row, col, entering.inside _ _ _ passed, here⟩,
      (Test.holds_iff (stands here)).mpr (enters.through_iff.mpr passed),
      (Test.holds_iff (stands here)).mpr (leaves.through_iff.mpr passed')⟩

/-- Counts of marks range over the cells that bear the marker. -/
theorem yields_mark {binding : Binding} {tuple : List Value} :
    Element.Yields world [] binding ⟨Place.here.args.map .term, [.holds (.cell marker .here)]⟩ tuple ↔
      ∃ v w, tuple = [v, w] ∧ world ⟨marker, [v, w]⟩ := by
  rw [Atom.cell, Element.yields_iff here_args here_args]
  constructor
  · intro yields
    obtain ⟨inner, marked, same⟩ := yields
    exact ⟨_, _, same, marked⟩
  · intro found
    obtain ⟨v, w, same, marked⟩ := found
    exact ⟨fun name => if name = "R" then v else w, marked, same⟩

theorem breaks_marks (cells : Finset (Int × Int)) (marks : ∀ fact : Fact, fact.relation = marker →
      (world fact ↔ ∃ cell ∈ cells, fact = .cell marker cell.1 cell.2)) :
    Program.Breaks world [.count ⟨Place.here.args.map .term, [.holds (.cell marker .here)]⟩ .ne 1] ↔
      cells.card ≠ 1 := by
  let tuples := cells.toList.map fun cell => [Value.num cell.1, Value.num cell.2]
  have distinct : tuples.Nodup := by
    refine List.Nodup.map ?_ cells.nodup_toList
    intro a b same
    simpa [Prod.ext_iff] using same
  have listed (binding : Binding) (tuple : List Value) : tuple ∈ tuples ↔ Element.Yields world [] binding
      ⟨Place.here.args.map .term, [.holds (.cell marker .here)]⟩ tuple := by
    rw [List.mem_map, yields_mark]
    constructor
    · intro found
      obtain ⟨cell, member, rfl⟩ := found
      exact ⟨_, _, rfl, (marks _ rfl).mpr ⟨cell, Finset.mem_toList.mp member, rfl⟩⟩
    · intro marked
      obtain ⟨v, w, rfl, marked⟩ := marked
      obtain ⟨cell, member, same⟩ := (marks _ rfl).mp marked
      exact ⟨cell, Finset.mem_toList.mpr member, (Fact.mk.inj same).2.symm⟩
  have length : tuples.length = cells.card := by rw [List.length_map, Finset.length_toList]
  have met (binding : Binding) : (∀ literal ∈ [Literal.count ⟨Place.here.args.map .term,
      [.holds (.cell marker .here)]⟩ .ne 1], literal.Holds world [] binding) ↔ cells.card ≠ 1 := by
    rw [List.forall_mem_singleton, Literal.count_holds_iff distinct (listed binding), length]
    simp [Comparator.holds]
  exact ⟨fun broken => broken.elim fun binding holds => (met binding).mp holds,
    fun other => ⟨fun _ => .inf, (met _).mpr other⟩⟩

private theorem exists_course (enters : world.Draws Relation.enters entering)
    (leaves : world.Draws Relation.leaves leaving) :
    ∀ ends ∈ pathEnds, ∃ course ∈ [entering, leaving], world.Draws ends.2 course := by
  intro ends listed
  rcases List.mem_pair.mp listed with rfl | rfl
  · exact ⟨entering, List.mem_cons_self, enters⟩
  · exact ⟨leaving, List.mem_cons_of_mem _ List.mem_cons_self, leaves⟩

private theorem exists_ends (enters : world.Draws Relation.enters entering)
    (leaves : world.Draws Relation.leaves leaving) :
    ∀ course ∈ [entering, leaving], ∃ ends ∈ pathEnds, world.Draws ends.2 course := by
  intro course member
  rcases List.mem_pair.mp member with rfl | rfl
  · exact ⟨_, start_mem, enters⟩
  · exact ⟨_, end_mem, leaves⟩

section Model

variable (unmarked : ∀ fact, given fact → fact.relation ∉ [pathStart, pathEnd])
include unmarked

theorem marked_iff (model : (freePath color true ++ directedLoop color true).Model given world)
    (listed : (marker, relation) ∈ pathEnds) (drawn : world.Draws relation course) (fact : Fact)
    (isMark : fact.relation = marker) :
    world fact ↔ ∃ cell, course.Stops (Colored world color) cell ∧ fact = .cell marker cell.1 cell.2 := by
  have met {binding : Binding} {row col : Int} (here : Place.Here binding row col) :
      (∀ literal ∈ [Literal.test (onGrid .here), .test (color.on .here), degree relation .eq 0],
        literal.Holds world (Program.ruleScope (.cell marker .here)
          [.test (onGrid .here), .test (color.on .here), degree relation .eq 0]) binding) ↔
      course.Stops (Colored world color) (row, col) := by
    have scope : Program.ruleScope (.cell marker .here) [.test (onGrid .here), .test (color.on .here),
        degree relation .eq 0] = ["R", "C", "R", "C", "R", "C"] := by cases color <;> rfl
    rw [scope, List.forall_mem_cons, List.forall_mem_cons, List.forall_mem_singleton, Course.Stops, OnGrid, and_assoc]
    refine and_congr ((holds_cell here.stands).trans drawn.grid_cell) (and_congr (holds_on color here.stands) ?_)
    refine (drawn.degree_holds (by decide) (by decide) here .eq 0).trans ?_
    simp [Comparator.holds]
  constructor
  · intro holds
    rcases (model.iff_supported fact).mp holds with isGiven | ⟨_, statement, _⟩ |
      ⟨head, body, statement, binding, denoted, holds⟩
    · exact absurd (isMark ▸ List.mem_map_of_mem (f := Prod.fst) listed) (unmarked fact isGiven)
    · exact absurd statement fact_mem_directed
    · obtain ⟨_, ends, listed', rfl, rfl⟩ := rule_mem_directed.mp statement
      have markers : ∀ ends ∈ pathEnds, ∀ ends' ∈ pathEnds, ends.1 = ends'.1 → ends = ends' := by decide
      cases markers ends listed' _ listed (denoted.1.symm.trans isMark)
      obtain ⟨row, col, _, here⟩ := drawn.onGrid_here.mp (holds _ List.mem_cons_self)
      refine ⟨(row, col), (met here).mp holds, ?_⟩
      rw [here_denotes.mp denoted, here.1, here.2, Fact.cell]
  · intro found
    obtain ⟨cell, stops, rfl⟩ := found
    obtain ⟨binding, here⟩ := Place.exists_here cell.1 cell.2
    exact (model.iff_supported _).mpr (.inr (.inr ⟨_, _, rule_mem_directed.mpr ⟨rfl, _, listed, rfl, rfl⟩, binding,
      here_denotes_cell.mpr ⟨rfl, here⟩, (met here).mpr stops⟩))

theorem mark_iff (model : (freePath color true ++ directedLoop color true).Model given world)
    (listed : (marker, relation) ∈ pathEnds) (drawn : world.Draws relation course) (cell : Int × Int) :
    world (.cell marker cell.1 cell.2) ↔ course.Stops (Colored world color) cell := by
  rw [marked_iff unmarked model listed drawn _ rfl]
  simp only [Fact.cell_inj, true_and, ← Prod.ext_iff, exists_eq_right']

/-- The marked cells are as many as one just if there is a single cell of the color without a side. -/
theorem breaks_marked (model : (freePath color true ++ directedLoop color true).Model given world)
    (listed : (marker, relation) ∈ pathEnds) (drawn : world.Draws relation course) :
    Program.Breaks world [.count ⟨Place.here.args.map .term, [.holds (.cell marker .here)]⟩ .ne 1] ↔
      ¬ ∃ only, ∀ cell, course.Stops (Colored world color) cell ↔ cell = only := by
  obtain ⟨cells, member⟩ := exists_cells rows cols fun cell => Colored world color cell ∧
    course.degree cell.1 cell.2 = 0
  have stops (cell : Int × Int) : cell ∈ cells ↔ course.Stops (Colored world color) cell :=
    (member cell).trans and_assoc.symm
  rw [breaks_marks cells fun fact isMark => by
    rw [marked_iff unmarked model listed drawn fact isMark]
    simp only [stops]]
  refine not_congr (Finset.card_eq_one.trans (exists_congr fun only => ?_))
  simp only [Finset.ext_iff, Finset.mem_singleton, stops]

theorem breaks_both (model : (freePath color true ++ directedLoop color true).Model given world)
    (enters : world.Draws Relation.enters entering) (leaves : world.Draws Relation.leaves leaving) :
    Program.Breaks world [.holds (.cell pathStart .here), .holds (.cell pathEnd .here)] ↔
      ∃ cell, entering.Stops (Colored world color) cell ∧ leaving.Stops (Colored world color) cell := by
  have starts := marked_iff unmarked model start_mem enters
  have finishes := marked_iff unmarked model end_mem leaves
  constructor
  · intro broken
    obtain ⟨binding, met⟩ := broken
    rw [List.forall_mem_cons, List.forall_mem_singleton] at met
    obtain ⟨cell, start, same⟩ := (starts _ rfl).mp (holds_here.mp met.1)
    obtain ⟨cell', finish, same'⟩ := (finishes _ rfl).mp (holds_here.mp met.2)
    simp only [Fact.cell, Fact.mk.injEq, List.cons.injEq, and_true, true_and] at same same'
    have one : cell = cell' :=
      Prod.ext (Value.num.inj (same.1.symm.trans same'.1)) (Value.num.inj (same.2.symm.trans same'.2))
    exact ⟨cell, start, one ▸ finish⟩
  · intro found
    obtain ⟨cell, start, finish⟩ := found
    obtain ⟨binding, here⟩ := Place.exists_here cell.1 cell.2
    refine ⟨binding, ?_⟩
    rw [List.forall_mem_cons, List.forall_mem_singleton]
    exact ⟨(holds_cell here.stands).mpr ((starts _ rfl).mpr ⟨cell, start, rfl⟩),
      (holds_cell here.stands).mpr ((finishes _ rfl).mpr ⟨cell, finish, rfl⟩)⟩

section Kept

variable (enters : world.Draws Relation.enters entering) (leaves : world.Draws Relation.leaves leaving)
include enters leaves

theorem conducts_of_kept (model : (freePath color true ++ directedLoop color path).Model given world)
    (kept : ¬ (freePath color true ++ directedLoop color path).Violated world) :
    entering.Conducts leaving (Colored world color) path := by
  have unbroken {body : List Literal}
      (statement : .constraint body ∈ (freePath color true ++ directedLoop color path).statements) :
      ¬ Program.Breaks world body := fun broken => kept ⟨body, statement, broken⟩
  have bare {ends : String × String} (listed : ends ∈ pathEnds) {course : Course rows cols}
      (drawn : world.Draws ends.2 course) (cell : Int × Int) (side : Side)
      (passed : course.passes cell.1 cell.2 side = true) : Colored world color cell := by
    by_contra unmatched
    apply unbroken (constraint_mem_directed.mpr (.inl ⟨ends, listed, rfl⟩))
    exact (drawn.breaks_bare color).mpr ⟨_, _, side, passed, unmatched⟩
  refine ⟨⟨bare start_mem enters, bare end_mem leaves, ?parted, ?back, ?onward⟩, ?once, ?ended, ?apart⟩
  case parted =>
    intro cell side entered left
    apply unbroken (constraint_mem_directed.mpr (.inr (.inr (.inr (.inl rfl)))))
    exact (breaks_sameSide enters leaves).mpr ⟨_, _, side, entered, left⟩
  case back =>
    intro cell side entered
    by_contra missing
    apply unbroken (constraint_mem_directed.mpr (.inr (.inr (.inr (.inr ⟨side, .inl rfl⟩)))))
    exact (enters.breaks_answered leaves side).mpr ⟨_, _, entered, missing⟩
  case onward =>
    intro cell side left
    by_contra missing
    apply unbroken (constraint_mem_directed.mpr (.inr (.inr (.inr (.inr ⟨side, .inr rfl⟩)))))
    exact (leaves.breaks_answered enters side).mpr ⟨_, _, left, missing⟩
  case once =>
    intro endless course member cell colored
    obtain ⟨ends, listed, drawn⟩ := exists_ends enters leaves course member
    by_contra other
    apply unbroken (constraint_mem_directed.mpr (.inr (.inl ⟨endless, ends, listed, rfl⟩)))
    exact (breaks_degree drawn color .ne 1).mpr ⟨_, _, colored.1, colored.2, by simpa [Comparator.holds] using other⟩
  case ended =>
    rintro rfl course member
    obtain ⟨ends, listed, drawn⟩ := exists_ends enters leaves course member
    constructor
    · intro cell colored
      by_contra more
      apply unbroken (constraint_mem_directed.mpr (.inr (.inr (.inl ⟨rfl, .inl ⟨ends, listed, .inr rfl⟩⟩))))
      exact (breaks_degree drawn color .gt 1).mpr ⟨_, _, colored.1, colored.2, above_one.mpr more⟩
    · by_contra other
      apply unbroken (constraint_mem_directed.mpr (.inr (.inr (.inl ⟨rfl, .inl ⟨ends, listed, .inl rfl⟩⟩))))
      exact (breaks_marked unmarked model listed drawn).mpr other
  case apart =>
    rintro rfl cell start finish
    apply unbroken (constraint_mem_directed.mpr (.inr (.inr (.inl ⟨rfl, .inr rfl⟩))))
    exact (breaks_both unmarked model enters leaves).mpr ⟨cell, start, finish⟩

theorem kept_of_conducts (model : (freePath color true ++ directedLoop color path).Model given world)
    (conducts : entering.Conducts leaving (Colored world color) path) :
    ¬ (freePath color true ++ directedLoop color path).Violated world := by
  intro violated
  obtain ⟨body, statement, broken⟩ := violated
  have flows := conducts.flows
  rcases constraint_mem_directed.mp statement with ⟨ends, listed, rfl⟩ | ⟨endless, ends, listed, rfl⟩ |
    ⟨rfl, ⟨ends, listed, rfl | rfl⟩ | rfl⟩ | rfl | ⟨side, rfl | rfl⟩
  case inl =>
    have only : ∀ course ∈ [entering, leaving], ∀ (cell : Int × Int) side, course.passes cell.1 cell.2 side = true →
        Colored world color cell := by
      intro course member
      rcases List.mem_pair.mp member with rfl | rfl
      · exact flows.enters
      · exact flows.leaves
    obtain ⟨course, member, drawn⟩ := exists_course enters leaves ends listed
    obtain ⟨row, col, side, passed, unmatched⟩ := (drawn.breaks_bare color).mp broken
    exact unmatched (only course member (row, col) side passed)
  · obtain ⟨course, member, drawn⟩ := exists_course enters leaves ends listed
    obtain ⟨row, col, inGrid, matched, other⟩ := (breaks_degree drawn color .ne 1).mp broken
    have one := conducts.once endless course member (row, col) ⟨inGrid, matched⟩
    simp [Comparator.holds, one] at other
  · obtain ⟨course, member, drawn⟩ := exists_course enters leaves ends listed
    exact (breaks_marked unmarked model listed drawn).mp broken (conducts.ended rfl course member).2
  · obtain ⟨course, member, drawn⟩ := exists_course enters leaves ends listed
    obtain ⟨row, col, inGrid, matched, more⟩ := (breaks_degree drawn color .gt 1).mp broken
    have few := (conducts.ended rfl course member).1 (row, col) ⟨inGrid, matched⟩
    exact above_one.mp more few
  · obtain ⟨cell, start, finish⟩ := (breaks_both unmarked model enters leaves).mp broken
    exact conducts.apart rfl cell start finish
  · obtain ⟨row, col, side, entered, left⟩ := (breaks_sameSide enters leaves).mp broken
    exact flows.parted (row, col) side entered left
  · obtain ⟨row, col, entered, missing⟩ := (enters.breaks_answered leaves side).mp broken
    exact missing (flows.back (row, col) side entered)
  · obtain ⟨row, col, left, missing⟩ := (leaves.breaks_answered enters side).mp broken
    exact missing (flows.onward (row, col) side left)

end Kept

end Model

/-- Whatever sides are given, the rules have one model. It keeps all constraints exactly if the sides conduct the cells
of the color. Then, where no path is asked for, going on through the side by which a cell is left is a permutation of
these cells without short cycles. Where a path is asked for, it runs from the one start to the one other end, and all
cells off it lie on cycles. -/
theorem currents_agree {rows cols : Nat} (entering leaving : Course rows cols) (given : World) (color : Color)
    (path : Bool) (enters : given.Draws Relation.enters entering) (leaves : given.Draws Relation.leaves leaving)
    (named : color.name ∉ [pathStart, pathEnd])
    (unmarked : ∀ fact, given fact → fact.relation ∉ [pathStart, pathEnd]) :
    (∃! world, (freePath color true ++ directedLoop color path).Model given world) ∧
    ∀ world, (freePath color true ++ directedLoop color path).Model given world →
      (¬ (freePath color true ++ directedLoop color path).Violated world ↔
        entering.Conducts leaving (Colored given color) path) ∧
      (¬ (freePath color true ++ directedLoop color path).Violated world →
        (path = false → ∃ step : Equiv.Perm {cell // OnGrid rows cols (Colored given color) cell},
          (∀ a b, step a = b ↔ leaving.Links a b) ∧ (∀ a, step a ≠ a ∧ step (step a) ≠ a) ∧
          ∃ cycles, Splits (OnGrid rows cols (Colored given color)) cycles ∧
            ∀ cycle ∈ cycles, IsDirectedCycle leaving.Links cycle) ∧
        (path = true → ∃ start finish, start ≠ finish ∧
          (∀ cell : Int × Int, world (.cell pathStart cell.1 cell.2) ↔ cell = start) ∧
          (∀ cell : Int × Int, world (.cell pathEnd cell.1 cell.2) ↔ cell = finish) ∧
          ∃ track cycles, Splits (OnGrid rows cols (Colored given color)) (track :: cycles) ∧
            IsDirectedPath leaving.Links track ∧ track.head? = some start ∧ track.getLast? = some finish ∧
            ∀ cycle ∈ cycles, IsDirectedCycle leaving.Links cycle)) := by
  refine ⟨existsUnique_directed named, fun world model => ?_⟩
  have colored : Colored world color = Colored given color := by
    funext cell
    exact propext (Color.matches_of_model model fun defines => named (defines_directed defines))
  have drawnIn := draws_of_directed model enters (by decide)
  have drawnOut := draws_of_directed model leaves (by decide)
  have kept_iff : ¬ (freePath color true ++ directedLoop color path).Violated world ↔
      entering.Conducts leaving (Colored world color) path :=
    ⟨conducts_of_kept unmarked drawnIn drawnOut model, kept_of_conducts unmarked drawnIn drawnOut model⟩
  rw [colored] at kept_iff
  refine ⟨kept_iff, fun kept => ?_⟩
  have conducts := kept_iff.mp kept
  constructor
  · intro endless
    refine conducts.flows.exists_step fun cell onGrid => ⟨?_, ?_⟩
    · exact conducts.once endless entering List.mem_cons_self cell onGrid
    · exact conducts.once endless leaving (List.mem_cons_of_mem _ List.mem_cons_self) cell onGrid
  · rintro rfl
    obtain ⟨entersFew, start, starts⟩ := conducts.ended rfl entering List.mem_cons_self
    obtain ⟨leavesFew, finish, finishes⟩ := conducts.ended rfl leaving (List.mem_cons_of_mem _ List.mem_cons_self)
    refine ⟨start, finish, ?_, fun cell => ?_, fun cell => ?_, ?_⟩
    · rintro rfl
      exact conducts.apart rfl start ((starts start).mpr rfl) ((finishes start).mpr rfl)
    · rw [mark_iff unmarked model start_mem drawnIn, colored, starts]
    · rw [mark_iff unmarked model end_mem drawnOut, colored, finishes]
    · exact conducts.flows.exists_path_cycles (fun cell onGrid => ⟨entersFew cell onGrid, leavesFew cell onGrid⟩)
        starts finishes

/-- Around four cells, and from one cell to another apart from them. -/
def currentSides : List (Int × Int × Side) :=
  [(0, 0, .right), (0, 1, .down), (1, 1, .left), (1, 0, .up), (0, 3, .down)]

def currentBackSides : List (Int × Int × Side) :=
  [(0, 1, .left), (1, 1, .up), (1, 0, .right), (0, 0, .down), (1, 3, .up)]

def current : Course 2 4 := .ofList currentSides (by decide)

def currentBack : Course 2 4 := .ofList currentBackSides (by decide)

def currentCells : List (Int × Int) := [(0, 0), (0, 1), (1, 0), (1, 1), (0, 3), (1, 3)]

def currentFacts : World := (World.ofCourse Relation.enters currentBack).join fun fact =>
  (∃ row col side, current.passes row col side = true ∧ fact = .through Relation.leaves row col side) ∨
    ∃ cell ∈ currentCells, fact = .cell "black" cell.1 cell.2

private theorem current_conducts {matched : Int × Int → Prop} (cells : ∀ cell, matched cell ↔ cell ∈ currentCells) :
    currentBack.Conducts current matched true := by
  have stops (course : Course 2 4) (only : Int × Int) (isCell : InGrid 2 4 only.1 only.2 ∧ only ∈ currentCells)
      (none : course.degree only.1 only.2 = 0)
      (others : ∀ cell ∈ currentCells, course.degree cell.1 cell.2 = 0 → cell = only) (cell : Int × Int) :
      course.Stops matched cell ↔ cell = only := by
    constructor
    · intro stops
      exact others cell ((cells cell).mp stops.1.2) stops.2
    · rintro rfl
      exact ⟨⟨isCell.1, (cells cell).mpr isCell.2⟩, none⟩
  have start := stops currentBack (0, 3) (by decide) (by decide) (by decide)
  have finish := stops current (1, 3) (by decide) (by decide) (by decide)
  refine ⟨⟨?enters, ?leaves, ?parted, ?back, ?onward⟩, nofun, ?ended, ?apart⟩
  case enters =>
    intro cell side passed
    have all : ∀ place ∈ currentBackSides, (place.1, place.2.1) ∈ currentCells := by decide
    exact (cells cell).mpr (all _ (of_decide_eq_true passed))
  case leaves =>
    intro cell side passed
    have all : ∀ place ∈ currentSides, (place.1, place.2.1) ∈ currentCells := by decide
    exact (cells cell).mpr (all _ (of_decide_eq_true passed))
  case parted =>
    intro cell side passed passed'
    have all : ∀ place ∈ currentBackSides, place ∉ currentSides := by decide
    exact all _ (of_decide_eq_true passed) (of_decide_eq_true passed')
  case back =>
    intro cell side passed
    have all : ∀ place ∈ currentBackSides, ((place.2.2.behind (place.1, place.2.1)).1,
        (place.2.2.behind (place.1, place.2.1)).2, place.2.2.opposite) ∈ currentSides := by decide
    exact decide_eq_true (all _ (of_decide_eq_true passed))
  case onward =>
    intro cell side passed
    have all : ∀ place ∈ currentSides, ((place.2.2.behind (place.1, place.2.1)).1,
        (place.2.2.behind (place.1, place.2.1)).2, place.2.2.opposite) ∈ currentBackSides := by decide
    exact decide_eq_true (all _ (of_decide_eq_true passed))
  case ended =>
    intro _ course member
    have few : ∀ cell ∈ currentCells, currentBack.degree cell.1 cell.2 ≤ 1 ∧ current.degree cell.1 cell.2 ≤ 1 := by
      decide
    rcases List.mem_pair.mp member with rfl | rfl
    · exact ⟨fun cell onGrid => (few cell ((cells cell).mp onGrid.2)).1, _, start⟩
    · exact ⟨fun cell onGrid => (few cell ((cells cell).mp onGrid.2)).2, _, finish⟩
  case apart =>
    intro _ cell isStart isFinish
    exact absurd (((start cell).mp isStart).symm.trans ((finish cell).mp isFinish)) (by decide)

theorem currents_agree_current : ∃ world,
    (freePath (.positive "black") true ++ directedLoop (.positive "black") true).Model currentFacts world ∧
      ¬ (freePath (.positive "black") true ++ directedLoop (.positive "black") true).Violated world ∧
      ∃ start finish, start ≠ finish ∧ (∀ cell : Int × Int, world (.cell pathStart cell.1 cell.2) ↔ cell = start) ∧
        ∃ track cycles, Splits (OnGrid 2 4 (Colored currentFacts (.positive "black"))) (track :: cycles) ∧
          IsDirectedPath current.Links track ∧ track.head? = some start ∧ track.getLast? = some finish ∧
          ∀ cycle ∈ cycles, IsDirectedCycle current.Links cycle := by
  have listed {fact : Fact} (given : currentFacts fact) :
      fact.relation ∈ [Relation.grid, Relation.enters, Relation.leaves, "black"] := by
    rcases given with drawn | ⟨_, _, _, _, rfl⟩ | ⟨_, _, rfl⟩
    · rcases World.ofCourse_relation drawn with same | same <;> rw [same] <;> decide
    · exact (by decide : Relation.leaves ∈ [Relation.grid, Relation.enters, Relation.leaves, "black"])
    · exact (by decide : "black" ∈ [Relation.grid, Relation.enters, Relation.leaves, "black"])
  have unmarked : ∀ fact, currentFacts fact → fact.relation ∉ [pathStart, pathEnd] := by
    intro fact given isMark
    have all : ∀ relation ∈ [pathStart, pathEnd],
        relation ∉ [Relation.grid, Relation.enters, Relation.leaves, "black"] := by decide
    exact all _ isMark (listed given)
  have enters : currentFacts.Draws Relation.enters currentBack := by
    refine (World.ofCourse_draws (by decide) currentBack).join fun fact given => ?_
    rcases given with ⟨_, _, _, _, rfl⟩ | ⟨_, _, rfl⟩
    · exact (by decide : Relation.leaves ≠ Relation.grid ∧ Relation.leaves ≠ Relation.enters)
    · exact (by decide : "black" ≠ Relation.grid ∧ "black" ≠ Relation.enters)
  have leaves : currentFacts.Draws Relation.leaves current := by
    refine ⟨enters.grid, fun fact isLeaving => ⟨fun given => ?_, fun passed => .inr (.inl passed)⟩⟩
    rcases given with drawn | passed | ⟨_, _, rfl⟩
    · rcases World.ofCourse_relation drawn with same | same <;>
        exact absurd (same.symm.trans isLeaving) (by decide)
    · exact passed
    · exact absurd isLeaving (by decide : "black" ≠ Relation.leaves)
  have black (cell : Int × Int) : Colored currentFacts (.positive "black") cell ↔ cell ∈ currentCells := by
    have undrawn : ¬ World.ofCourse Relation.enters currentBack (.cell "black" cell.1 cell.2) := fun drawn =>
      (World.ofCourse_relation drawn).elim (by decide : "black" ≠ Relation.grid)
        (by decide : "black" ≠ Relation.enters)
    have notSide : ¬ ∃ row col side, current.passes row col side = true ∧
        Fact.cell "black" cell.1 cell.2 = .through Relation.leaves row col side := by
      rintro ⟨_, _, _, _, same⟩
      exact absurd (Fact.mk.inj same).1 (by decide)
    refine (or_iff_right undrawn).trans ((or_iff_right notSide).trans ?_)
    simp only [Fact.cell_inj, true_and, ← Prod.ext_iff, exists_eq_right']
  obtain ⟨⟨world, model, _⟩, each⟩ := currents_agree currentBack current currentFacts (.positive "black") true enters
    leaves (by decide) unmarked
  obtain ⟨kept_iff, runs⟩ := each world model
  have kept := kept_iff.mpr (current_conducts black)
  obtain ⟨start, finish, apart, starts, _, splits⟩ := (runs kept).2 rfl
  exact ⟨world, model, kept, start, finish, apart, starts, splits⟩

end GridPuzzle.Template
