import Mathlib.Algebra.Group.Int.Even
import Mathlib.Data.List.Nodup
import GridPuzzle.Template.Loop
import GridPuzzle.Proofs.Plane.Link
import GridPuzzle.Proofs.Board.Facts

/-!
Courses as facts. Where a world has the sides of a course, what rules ask about the sides of a cell and
about their number is read off the course.
-/
namespace GridPuzzle

namespace Fact

/-- The relation holds of a cell and one of its sides. -/
def through (relation : String) (row col : Int) (side : Side) : Fact :=
  ⟨relation, [.num row, .num col, .str side.letter]⟩

end Fact

theorem Side.letter_injective : Function.Injective Side.letter := by
  intro side side'
  cases side <;> cases side' <;> decide

@[simp] theorem Fact.through_inj {relation relation' : String} {row col row' col' : Int} {side side' : Side} :
    through relation row col side = through relation' row' col' side' ↔
      relation = relation' ∧ row = row' ∧ col = col' ∧ side = side' := by
  simp [through, Side.letter_injective.eq_iff]

/-- The world has the cells of a grid and, in a relation, the sides of a course over it. -/
structure World.Draws (world : World) (relation : String) {rows cols : Nat} (course : Course rows cols) :
    Prop where
  grid : ∀ fact : Fact, fact.relation = Relation.grid →
    (world fact ↔ ∃ row col, InGrid rows cols row col ∧ fact = .cell Relation.grid row col)
  sides : ∀ fact : Fact, fact.relation = relation →
    (world fact ↔ ∃ row col side, course.passes row col side = true ∧ fact = .through relation row col side)

section Places

variable {world : World} {binding : Binding} {relation : String} {place : Place} {row col : Int}

theorem side_stands (stands : place.Stands binding row col) (side : Side) :
    StandAll binding (place.args ++ [.str side.letter]) [.num row, .num col, .str side.letter] :=
  .cons stands.1 (.cons stands.2 (.cons (fun _ => Iff.rfl) .nil))

theorem holds_side (stands : place.Stands binding row col) (side : Side) :
    (Test.holds (side.fact relation place)).Holds world binding ↔ world (.through relation row col side) :=
  Test.holds_iff (side_stands stands side)

theorem fails_side (stands : place.Stands binding row col) (side : Side) :
    (Test.fails (side.fact relation place)).Holds world binding ↔ ¬ world (.through relation row col side) :=
  Test.fails_iff (side_stands stands side)

end Places

namespace World.Draws

variable {world : World} {relation : String} {rows cols : Nat} {course : Course rows cols} {binding : Binding}
  {row col : Int}

section Drawn

variable (draws : world.Draws relation course)
include draws

theorem grid_cell : world (.cell Relation.grid row col) ↔ InGrid rows cols row col := by
  rw [draws.grid _ rfl]
  simp

theorem through_iff {side : Side} : world (.through relation row col side) ↔
    course.passes row col side = true := by
  rw [draws.sides _ rfl]
  simp

theorem onGrid_here : (onGrid .here).Holds world binding ↔
    ∃ row col, InGrid rows cols row col ∧ Place.Here binding row col := by
  rw [onGrid, holds_here, draws.grid _ rfl]
  simp only [Fact.cell, Fact.mk.injEq, List.cons.injEq, and_true, true_and, Place.Here]

theorem of_model {given : World} {program : Program} (model : program.Model world given)
    (grid : ¬ program.Defines Relation.grid) (sides : ¬ program.Defines relation) :
    given.Draws relation course := by
  constructor
  · intro fact same
    rw [model.iff_given (same ▸ grid), draws.grid fact same]
  · intro fact same
    rw [model.iff_given (same ▸ sides), draws.sides fact same]

theorem join {others : World} (apart : ∀ fact, others fact → fact.relation ≠ Relation.grid ∧
    fact.relation ≠ relation) : (world.join others).Draws relation course := by
  constructor
  · intro fact same
    rw [← draws.grid fact same]
    exact or_iff_left fun other => (apart fact other).1 same
  · intro fact same
    rw [← draws.sides fact same]
    exact or_iff_left fun other => (apart fact other).2 same

private theorem yields_side {outer : List String} (cell : "R" ∈ outer ∧ "C" ∈ outer) (free : "D" ∉ outer)
    (here : Place.Here binding row col) (tuple : List Value) :
    Element.Yields world outer binding
        ⟨[Template.anySide], [.holds ⟨relation, Place.here.args ++ [Template.anySide]⟩]⟩ tuple ↔
      ∃ side, course.passes row col side = true ∧ tuple = [.str side.letter] := by
  have stands (inner : Binding) (here : Place.Here inner row col) :
      StandAll inner (Place.here.args ++ [Template.anySide]) [.num row, .num col, inner "D"] :=
    .cons here.stands.1 (.cons here.stands.2 (.cons (Term.stands_var "D") .nil))
  constructor
  · intro yields
    obtain ⟨inner, agree, met, denoted⟩ := yields
    have here' : Place.Here inner row col := ⟨(agree "R" cell.1).trans here.1, (agree "C" cell.2).trans here.2⟩
    have holds := (Test.holds_iff (stands inner here')).mp (met _ (List.mem_singleton_self _))
    obtain ⟨row', col', side, passed, same⟩ := (draws.sides _ rfl).mp holds
    simp only [Fact.through, Fact.mk.injEq, List.cons.injEq, Value.num.injEq, and_true, true_and] at same
    obtain ⟨rfl, rfl, isSide⟩ := same
    refine ⟨side, passed, ?_⟩
    simp only [denoteAll_cons, denoteAll_nil] at denoted
    obtain ⟨value, _, rfl, isValue, rfl⟩ := denoted
    rw [← isSide]
    exact congrArg (fun value => [value]) ((Term.stands_var "D" value).mp isValue)
  · intro passed
    obtain ⟨side, passed, rfl⟩ := passed
    let inner : Binding := fun name => if name = "D" then .str side.letter else binding name
    refine ⟨inner, fun name member => ?_, ?_, rfl, trivial⟩
    · have apart : name ≠ "D" := by
        rintro rfl
        exact free member
      exact if_neg apart
    · have holds := (Test.holds_iff (stands inner here)).mpr (draws.through_iff.mpr passed)
      exact List.forall_mem_singleton.mpr holds

/-- A count of sides is the number of sides that the course passes. -/
theorem degree_holds {outer : List String} (cell : "R" ∈ outer ∧ "C" ∈ outer) (free : "D" ∉ outer)
    (here : Place.Here binding row col) (comparator : Comparator) (sides : Int) :
    (Template.degree relation comparator sides).Holds world outer binding ↔
      comparator.holds (course.degree row col) sides = true := by
  let passed := (Side.all.filter (course.passes row col)).map fun side => [Value.str side.letter]
  have nodup : passed.Nodup := by
    have injective : Function.Injective fun side : Side => [Value.str side.letter] := by
      intro side side' same
      simpa [Side.letter_injective.eq_iff] using same
    exact List.Nodup.map injective (List.Nodup.filter _ (by decide))
  have listed (tuple : List Value) : tuple ∈ passed ↔ Element.Yields world outer binding
      ⟨[Template.anySide], [.holds ⟨relation, Place.here.args ++ [Template.anySide]⟩]⟩ tuple := by
    rw [draws.yields_side cell free here tuple]
    simp only [passed, List.mem_map, List.mem_filter, Side.mem_all, true_and, @eq_comm _ _ tuple]
  have length : passed.length = course.degree row col := by
    rw [List.length_map, Course.degree, List.countP_eq_length_filter]
  rw [Template.degree, Literal.count_holds_iff nodup listed, length]

/-- What a constraint asks for besides a cell of the grid is asked for at some cell. -/
theorem breaks_iff {body : List Literal} {meaning : Int → Int → Prop}
    (read : ∀ binding row col, Place.Here binding row col →
      ((∀ literal ∈ body, literal.Holds world (["R", "C"] ++ body.flatMap Literal.outer) binding) ↔
        meaning row col)) :
    Program.Breaks world (.test (onGrid .here) :: body) ↔
      ∃ row col, InGrid rows cols row col ∧ meaning row col := by
  have met (binding : Binding) : (∀ literal ∈ Literal.test (onGrid .here) :: body,
      literal.Holds world (["R", "C"] ++ body.flatMap Literal.outer) binding) ↔
        (onGrid .here).Holds world binding ∧
          ∀ literal ∈ body, literal.Holds world (["R", "C"] ++ body.flatMap Literal.outer) binding :=
    List.forall_mem_cons
  constructor
  · intro broken
    obtain ⟨binding, holds⟩ := broken
    obtain ⟨onGrid, rest⟩ := (met binding).mp holds
    obtain ⟨row, col, inGrid, here⟩ := draws.onGrid_here.mp onGrid
    exact ⟨row, col, inGrid, (read binding row col here).mp rest⟩
  · intro found
    obtain ⟨row, col, inGrid, holds⟩ := found
    obtain ⟨binding, here⟩ := Place.exists_here row col
    exact ⟨binding, (met binding).mpr ⟨draws.onGrid_here.mpr ⟨row, col, inGrid, here⟩,
      (read binding row col here).mpr holds⟩⟩

private theorem anySide_holds (here : Place.Here binding row col) :
    (Test.holds ⟨relation, Place.here.args ++ [.anon]⟩).Holds world binding ↔
      ∃ side, course.passes row col side = true := by
  constructor
  · intro holds
    obtain ⟨fact, ⟨same, denoted⟩, holds⟩ := holds
    obtain ⟨row', col', side, passed, rfl⟩ := (draws.sides fact same).mp holds
    obtain ⟨rows, cols, _⟩ := denoted
    cases here.1.symm.trans rows.symm
    cases here.2.symm.trans cols.symm
    exact ⟨side, passed⟩
  · intro found
    obtain ⟨side, passed⟩ := found
    exact ⟨.through relation row col side, ⟨rfl, here.1.symm, here.2.symm, trivial, trivial⟩,
      draws.through_iff.mpr passed⟩

theorem breaks_bare (color : Color) : Program.Breaks world [.test (onGrid .here),
      .holds ⟨relation, Place.here.args ++ [.anon]⟩, .test (color.off .here)] ↔
    ∃ row col side, course.passes row col side = true ∧ ¬ color.Matches world row col := by
  have read : Program.Breaks world [.test (onGrid .here), .holds ⟨relation, Place.here.args ++ [.anon]⟩,
        .test (color.off .here)] ↔ ∃ row col, InGrid rows cols row col ∧
      (∃ side, course.passes row col side = true) ∧ ¬ color.Matches world row col := by
    refine draws.breaks_iff fun binding row col here => ?_
    rw [List.forall_mem_cons, List.forall_mem_singleton]
    exact and_congr (draws.anySide_holds here) (holds_off color here.stands)
  rw [read]
  constructor
  · intro found
    obtain ⟨row, col, _, ⟨side, passed⟩, unmatched⟩ := found
    exact ⟨row, col, side, passed, unmatched⟩
  · intro found
    obtain ⟨row, col, side, passed, unmatched⟩ := found
    exact ⟨row, col, course.inside row col side passed, ⟨side, passed⟩, unmatched⟩

theorem breaks_answered {answer : String} {other : Course rows cols} (answers : world.Draws answer other)
    (side : Side) : Program.Breaks world [.test (onGrid .here), .holds (side.fact relation .here),
      .fails (side.opposite.fact answer (Place.here.step side.offset))] ↔
    ∃ row col, course.passes row col side = true ∧
      ¬ other.passes (row + side.offset.row.val) (col + side.offset.col.val) side.opposite = true := by
  have read : Program.Breaks world [.test (onGrid .here), .holds (side.fact relation .here),
        .fails (side.opposite.fact answer (Place.here.step side.offset))] ↔ ∃ row col, InGrid rows cols row col ∧
      course.passes row col side = true ∧
      ¬ other.passes (row + side.offset.row.val) (col + side.offset.col.val) side.opposite = true := by
    refine draws.breaks_iff fun binding row col here => ?_
    rw [List.forall_mem_cons, List.forall_mem_singleton]
    exact and_congr ((holds_side here.stands side).trans draws.through_iff)
      ((fails_side (here.step_stands side.offset) side.opposite).trans (not_congr answers.through_iff))
  rw [read]
  refine exists_congr fun row => exists_congr fun col => and_iff_right_of_imp fun unanswered => ?_
  exact course.inside row col side unanswered.1

/-- No constraint about answers is broken exactly if every side comes back in the cell behind it. -/
theorem answered_iff : ¬ Program.Violated ⟨Side.all.map (Template.answered relation relation)⟩ world ↔
    ∀ row col side, course.passes row col side = true →
      course.passes (row + side.offset.row.val) (col + side.offset.col.val) side.opposite = true := by
  constructor
  · intro kept row col side passed
    by_contra missing
    refine kept ⟨_, List.mem_map.mpr ⟨side, side.mem_all, rfl⟩, ?_⟩
    exact (draws.breaks_answered draws side).mpr ⟨row, col, passed, missing⟩
  · intro answered violated
    obtain ⟨body, statement, broken⟩ := violated
    obtain ⟨side, _, same⟩ := List.mem_map.mp statement
    cases same
    obtain ⟨row, col, passed, missing⟩ := (draws.breaks_answered draws side).mp broken
    exact missing (answered row col side passed)

end Drawn

end World.Draws

/-- The facts of a grid and of the sides of a course. -/
def World.ofCourse (relation : String) {rows cols : Nat} (course : Course rows cols) : World := fun fact =>
  (∃ row col, InGrid rows cols row col ∧ fact = .cell Relation.grid row col) ∨
    ∃ row col side, course.passes row col side = true ∧ fact = .through relation row col side

theorem World.ofCourse_relation {relation : String} {rows cols : Nat} {course : Course rows cols} {fact : Fact}
    (given : World.ofCourse relation course fact) : fact.relation = Relation.grid ∨ fact.relation = relation := by
  rcases given with ⟨_, _, _, rfl⟩ | ⟨_, _, _, _, rfl⟩
  · exact .inl rfl
  · exact .inr rfl

theorem World.ofCourse_draws {relation : String} (apart : relation ≠ Relation.grid) {rows cols : Nat}
    (course : Course rows cols) : (World.ofCourse relation course).Draws relation course := by
  constructor
  · intro fact same
    refine or_iff_left fun sides => apart ?_
    obtain ⟨_, _, _, _, rfl⟩ := sides
    exact same
  · intro fact same
    refine or_iff_right fun grid => apart ?_
    obtain ⟨_, _, _, rfl⟩ := grid
    exact same.symm

namespace Template

variable {rows cols : Nat} {course : Course rows cols} {given world : World} {color : Color}
  {degrees : List Int}

/-- What leaves a cell through a side comes back through the opposite one of the cell behind it. -/
def sidesAnswered : Program := ⟨Side.all.map (answered Relation.passes Relation.passes)⟩

theorem answered_ofList {sides : List (Int × Int × Side)} {inside : ∀ place ∈ sides, InGrid rows cols place.1 place.2.1}
    (listed : ∀ place ∈ sides, (place.1 + place.2.2.offset.row.val, place.2.1 + place.2.2.offset.col.val,
      place.2.2.opposite) ∈ sides) :
    ¬ sidesAnswered.Violated (World.ofCourse Relation.passes (.ofList sides inside)) := by
  refine (World.ofCourse_draws (by decide) (.ofList sides inside)).answered_iff.mpr fun row col side passed => ?_
  exact decide_eq_true (listed _ (of_decide_eq_true passed))

/-- The facts give the color to the cell. -/
def Colored (given : World) (color : Color) (cell : Int × Int) : Prop := color.Matches given cell.1 cell.2

/-- Dead ends are asked for, and the facts make the cell one. -/
def IsDeadEnd (given : World) (deadEnds : Bool) (cell : Int × Int) : Prop :=
  deadEnds = true ∧ given (.cell deadEnd cell.1 cell.2)

section Rules

variable {deadEnds : Bool}

theorem rule_mem_loop {head : Atom} {body : List Literal} :
    .rule head body ∈ (freePath color false ++ passes color degrees deadEnds).statements ↔
      ∃ sides ∈ degrees, head = .cell passedBy .here ∧
        body = [.test (onGrid .here), degree Relation.passes .eq sides] := by
  cases deadEnds <;>
    simp [Program.statements_append, freePath, pickSides, passes, Side.all, answered, eq_comm]

theorem fact_mem_loop {atom : Atom} :
    .fact atom ∉ (freePath color false ++ passes color degrees deadEnds).statements := by
  cases deadEnds <;> simp [Program.statements_append, freePath, pickSides, passes, Side.all, answered]

theorem constraint_mem_loop {body : List Literal} :
    .constraint body ∈ (freePath color false ++ passes color degrees deadEnds).statements ↔
      body = [.test (onGrid .here), .holds ⟨Relation.passes, Place.here.args ++ [.anon]⟩,
          .test (color.off .here)] ∨
      deadEnds = false ∧ body = [.test (onGrid .here), .test (color.on .here), .fails (.cell passedBy .here)] ∨
      deadEnds = true ∧ (body = [.test (onGrid .here), .test (color.on .here), .fails (.cell deadEnd .here),
            .fails (.cell passedBy .here)] ∨
          body = [.test (onGrid .here), .holds (.cell deadEnd .here), degree Relation.passes .ne 1]) ∨
      ∃ side : Side, body = [.test (onGrid .here), .holds (side.fact Relation.passes .here),
        .fails (side.opposite.fact Relation.passes (Place.here.step side.offset))] := by
  have sides (goal : Side → Prop) : (∃ side ∈ Side.all, goal side) ↔ ∃ side, goal side :=
    exists_congr fun side => and_iff_right side.mem_all
  cases deadEnds <;>
    simp [Program.statements_append, freePath, pickSides, passes, answered, sides, or_assoc, @eq_comm _ body]

theorem defines_loop {relation : String}
    (defines : (freePath color false ++ passes color degrees deadEnds).Defines relation) : relation = passedBy := by
  rcases defines with ⟨atom, statement, _⟩ | ⟨head, body, statement, rfl⟩
  · exact absurd statement fact_mem_loop
  · obtain ⟨_, _, rfl, _⟩ := rule_mem_loop.mp statement
    rfl

theorem draws_of_loop (draws : given.Draws Relation.passes course)
    (model : (freePath color false ++ passes color degrees deadEnds).Model given world) :
    world.Draws Relation.passes course :=
  draws.of_model model (fun defines => absurd (defines_loop defines) (by decide))
    (fun defines => absurd (defines_loop defines) (by decide))

section Drawn

variable (drawn : world.Draws Relation.passes course)
include drawn

private theorem breaks_uncounted : Program.Breaks world [.test (onGrid .here), .test (color.on .here),
      .fails (.cell passedBy .here)] ↔
    ∃ row col, InGrid rows cols row col ∧ color.Matches world row col ∧ ¬ world (.cell passedBy row col) := by
  refine drawn.breaks_iff fun binding row col here => ?_
  rw [List.forall_mem_cons, List.forall_mem_singleton]
  exact and_congr (holds_on color here.stands) (fails_cell here.stands)

private theorem breaks_uncounted_inner : Program.Breaks world [.test (onGrid .here), .test (color.on .here),
      .fails (.cell deadEnd .here), .fails (.cell passedBy .here)] ↔
    ∃ row col, InGrid rows cols row col ∧ color.Matches world row col ∧ ¬ world (.cell deadEnd row col) ∧
      ¬ world (.cell passedBy row col) := by
  refine drawn.breaks_iff fun binding row col here => ?_
  rw [List.forall_mem_cons, List.forall_mem_cons, List.forall_mem_singleton]
  exact and_congr (holds_on color here.stands)
    (and_congr (fails_cell here.stands) (fails_cell here.stands))

private theorem breaks_end : Program.Breaks world [.test (onGrid .here), .holds (.cell deadEnd .here),
      degree Relation.passes .ne 1] ↔
    ∃ row col, InGrid rows cols row col ∧ world (.cell deadEnd row col) ∧ course.degree row col ≠ 1 := by
  refine drawn.breaks_iff fun binding row col here => ?_
  rw [List.forall_mem_cons, List.forall_mem_singleton]
  refine and_congr (holds_cell here.stands) ((drawn.degree_holds (by decide) (by decide) here .ne 1).trans ?_)
  simp [Comparator.holds]

end Drawn

section Model

variable (draws : given.Draws Relation.passes course)
  (unmarked : ∀ fact, given fact → fact.relation ≠ passedBy)
  (model : (freePath color false ++ passes color degrees deadEnds).Model given world)
include draws unmarked model

private theorem passedBy_iff {row col : Int} (inGrid : InGrid rows cols row col) :
    world (.cell passedBy row col) ↔ (course.degree row col : Int) ∈ degrees := by
  have drawn := draws_of_loop draws model
  have counts {binding : Binding} (here : Place.Here binding row col) (sides : Int) :
      (degree Relation.passes .eq sides).Holds world ["R", "C", "R", "C"] binding ↔
        (course.degree row col : Int) = sides :=
    (drawn.degree_holds (by decide) (by decide) here .eq sides).trans decide_eq_true_iff
  constructor
  · intro passed
    rcases (model.iff_supported _).mp passed with isGiven | ⟨_, statement, _⟩ |
      ⟨head, body, statement, binding, denoted, met⟩
    · exact absurd rfl (unmarked _ isGiven)
    · exact absurd statement fact_mem_loop
    · obtain ⟨sides, member, rfl, rfl⟩ := rule_mem_loop.mp statement
      have here := (here_denotes_cell.mp denoted).2
      rw [(counts here sides).mp (met _ (List.mem_cons_of_mem _ (List.mem_singleton_self _)))]
      exact member
  · intro member
    obtain ⟨binding, here⟩ := Place.exists_here row col
    refine (model.iff_supported _).mpr (.inr (.inr ⟨_, _, rule_mem_loop.mpr ⟨_, member, rfl, rfl⟩, binding,
      here_denotes_cell.mpr ⟨rfl, here⟩, ?_⟩))
    rw [List.forall_mem_cons, List.forall_mem_singleton]
    exact ⟨drawn.onGrid_here.mpr ⟨row, col, inGrid, here⟩, (counts here _).mpr rfl⟩

private theorem obeys_of_kept (kept : ¬ (freePath color false ++ passes color degrees deadEnds).Violated world) :
    course.Obeys (Colored world color) (IsDeadEnd world deadEnds) degrees := by
  have drawn := draws_of_loop draws model
  have marked {row col : Int} (inGrid : InGrid rows cols row col) := passedBy_iff draws unmarked model inGrid
  have unbroken {body : List Literal}
      (statement : .constraint body ∈ (freePath color false ++ passes color degrees deadEnds).statements) :
      ¬ Program.Breaks world body := fun broken => kept ⟨body, statement, broken⟩
  constructor
  · intro cell side passed
    by_contra unmatched
    apply unbroken (constraint_mem_loop.mpr (.inl rfl))
    exact (drawn.breaks_bare color).mpr ⟨_, _, side, passed, unmatched⟩
  · intro cell side passed
    have answered : course.passes (side.behind cell).1 (side.behind cell).2 side.opposite = true := by
      by_contra missing
      apply unbroken (constraint_mem_loop.mpr (.inr (.inr (.inr ⟨side, rfl⟩))))
      exact (drawn.breaks_answered drawn side).mpr ⟨_, _, passed, missing⟩
    exact ⟨course.inside _ _ _ answered, answered⟩
  · intro cell ended
    have one : course.degree cell.1 cell.2 = 1 := by
      by_contra other
      apply unbroken (constraint_mem_loop.mpr (.inr (.inr (.inl ⟨ended.2.1, .inr rfl⟩))))
      exact (breaks_end drawn).mpr ⟨_, _, ended.1, ended.2.2, other⟩
    refine ⟨?_, one⟩
    obtain ⟨side, only⟩ := Course.exists_side one
    by_contra unmatched
    apply unbroken (constraint_mem_loop.mpr (.inl rfl))
    exact (drawn.breaks_bare color).mpr ⟨_, _, side, (only side).mpr rfl, unmatched⟩
  · intro cell onGrid notEnd
    rw [← marked onGrid.1]
    by_contra unmarked'
    cases deadEnds with
    | false =>
      apply unbroken (constraint_mem_loop.mpr (.inr (.inl ⟨rfl, rfl⟩)))
      exact (breaks_uncounted drawn).mpr ⟨_, _, onGrid.1, onGrid.2, unmarked'⟩
    | true =>
      apply unbroken (constraint_mem_loop.mpr (.inr (.inr (.inl ⟨rfl, .inl rfl⟩))))
      exact (breaks_uncounted_inner drawn).mpr
        ⟨_, _, onGrid.1, onGrid.2, fun ended => notEnd ⟨rfl, ended⟩, unmarked'⟩

private theorem kept_of_obeys (obeys : course.Obeys (Colored world color) (IsDeadEnd world deadEnds) degrees) :
    ¬ (freePath color false ++ passes color degrees deadEnds).Violated world := by
  have drawn := draws_of_loop draws model
  have marked {row col : Int} (inGrid : InGrid rows cols row col) := passedBy_iff draws unmarked model inGrid
  intro violated
  obtain ⟨body, statement, broken⟩ := violated
  rcases constraint_mem_loop.mp statement with rfl | ⟨rfl, rfl⟩ | ⟨rfl, rfl | rfl⟩ | ⟨side, rfl⟩
  · obtain ⟨row, col, side, passed, unmatched⟩ := (drawn.breaks_bare color).mp broken
    exact unmatched (obeys.only (row, col) side passed)
  · obtain ⟨row, col, inGrid, matched, unmarked'⟩ := (breaks_uncounted drawn).mp broken
    exact unmarked' ((marked inGrid).mpr (obeys.counted (row, col) ⟨inGrid, matched⟩ (by simp [IsDeadEnd])))
  · obtain ⟨row, col, inGrid, matched, notEnd, unmarked'⟩ :=
      (breaks_uncounted_inner drawn).mp broken
    exact unmarked' ((marked inGrid).mpr (obeys.counted (row, col) ⟨inGrid, matched⟩ fun ended => notEnd ended.2))
  · obtain ⟨row, col, inGrid, ended, other⟩ := (breaks_end drawn).mp broken
    exact other (obeys.ended (row, col) ⟨inGrid, rfl, ended⟩).2
  · obtain ⟨row, col, passed, missing⟩ := (drawn.breaks_answered drawn side).mp broken
    exact missing (obeys.answered (row, col) side passed).2

/-- The constraints of loop rules are kept exactly by courses with the given numbers of sides. -/
theorem loop_kept_iff : ¬ (freePath color false ++ passes color degrees deadEnds).Violated world ↔
    course.Obeys (Colored world color) (IsDeadEnd world deadEnds) degrees :=
  ⟨obeys_of_kept draws unmarked model, kept_of_obeys draws unmarked model⟩

end Model

/-- The rules for loops that do not end allow closed courses only, if the numbers of sides are even. -/
theorem closed_of_loop (even : ∀ sides ∈ degrees, Even sides) (draws : given.Draws Relation.passes course)
    (unmarked : ∀ fact, given fact → fact.relation ≠ passedBy)
    (model : (freePath color false ++ passes color degrees false).Model given world)
    (kept : ¬ (freePath color false ++ passes color degrees false).Violated world) : course.Closed := by
  have obeys := (loop_kept_iff draws unmarked model).mp kept
  constructor
  · intro row col side passed
    exact (obeys.answered (row, col) side passed).2
  · intro row col inGrid
    change Even (course.degree row col)
    by_cases matched : color.Matches world row col
    · have member := obeys.counted (row, col) ⟨inGrid, matched⟩ (by simp [IsDeadEnd])
      exact (Int.even_coe_nat _).mp (even _ member)
    · have none : course.degree row col = 0 := by
        rw [Course.degree_eq_zero_iff]
        intro side
        exact Bool.eq_false_iff.mpr fun passed => matched (obeys.only (row, col) side passed)
      exact none ▸ Even.zero

end Rules

end Template

end GridPuzzle
