import Mathlib.Data.Set.Finite.Basic
import GridPuzzle.Proofs.Rules.Compose
import GridPuzzle.Proofs.Template.DirectedLoop

/-!
Marks of paths. The rules about a directed path mark the cells of a color that no side enters, and those that none
leaves. Some of its constraints count marks, and what all others ask of a cell does not depend on the marks of others.
-/
namespace GridPuzzle.Template

variable {color one other : Color} {given world : World} {marker : String} {body : List Literal}

/-- There is no marked cell, or more than one. -/
def notOne (marker : String) : List Literal :=
  [.count ⟨Place.here.args.map .term, [.holds (.cell marker .here)]⟩ .ne 1]

def bothEnds : List Literal := [.holds (.cell pathStart .here), .holds (.cell pathEnd .here)]

/-- A cell of the color has more than one side. -/
def crowded (color : Color) (relation : String) : List Literal :=
  [.test (onGrid .here), .test (color.on .here), degree relation .gt 1]

/-- What is asked of the sides of cells, whatever their color. -/
def sideBodies : List (List Literal) :=
  [.test (onGrid .here), .holds ⟨Relation.enters, Place.here.args ++ [anySide]⟩,
      .holds ⟨Relation.leaves, Place.here.args ++ [anySide]⟩] ::
    Side.all.flatMap fun side => [(Relation.enters, Relation.leaves), (Relation.leaves, Relation.enters)].map
      fun pair => [.test (onGrid .here), .holds (side.fact pair.1 .here),
        .fails (side.opposite.fact pair.2 (Place.here.step side.offset))]

theorem constraint_mem_path : .constraint body ∈ (directedLoop color true).statements ↔
    (∃ ends ∈ pathEnds, body = notOne ends.1 ∨ body = crowded color ends.2) ∨ body = bothEnds ∨
      body ∈ sideBodies := by
  simp only [directedLoop, markedEnd, answered, pathEnds, notOne, crowded, bothEnds, sideBodies]
  simp [@eq_comm _ body, or_assoc]

/-- One of the constraints of a path is broken, other than those that count marks. -/
def Strays (color : Color) (world : World) : Prop :=
  ∃ body, .constraint body ∈ (directedLoop color true).statements ∧ (∀ ends ∈ pathEnds, body ≠ notOne ends.1) ∧
    Program.Breaks world body

/-- Not just one fact marks where a path starts, or not just one where it ends. -/
def Miscounts (world : World) : Prop :=
  ∃ marker ∈ [pathStart, pathEnd], ¬ ∃! fact : Fact, fact.relation = marker ∧ world fact

theorem path_violated_iff : (directedLoop color true).Violated world ↔
    Strays color world ∨ ∃ ends ∈ pathEnds, Program.Breaks world (notOne ends.1) := by
  constructor
  · intro violated
    obtain ⟨body, statement, broken⟩ := violated
    by_cases counts : ∃ ends ∈ pathEnds, body = notOne ends.1
    · obtain ⟨ends, listed, rfl⟩ := counts
      exact .inr ⟨ends, listed, broken⟩
    · push Not at counts
      exact .inl ⟨body, statement, counts, broken⟩
  · intro broken
    rcases broken with ⟨body, statement, _, broken⟩ | ⟨ends, listed, broken⟩
    · exact ⟨body, statement, broken⟩
    · exact ⟨_, constraint_mem_path.mpr (.inl ⟨ends, listed, .inl rfl⟩), broken⟩

theorem strays_iff : Strays color world ↔ (∃ ends ∈ pathEnds, Program.Breaks world (crowded color ends.2)) ∨
    Program.Breaks world bothEnds ∨ ∃ body ∈ sideBodies, Program.Breaks world body := by
  have apart {others : List Literal} {condition : Test} (marker : String) : .test condition :: others ≠ notOne marker :=
    fun same => nomatch (List.cons.inj same).1
  have sides : ∀ body ∈ sideBodies, ∃ condition others, body = .test condition :: others := by
    refine List.forall_mem_cons.mpr ⟨⟨_, _, rfl⟩, fun body member => ?_⟩
    obtain ⟨side, _, member⟩ := List.mem_flatMap.mp member
    obtain ⟨pair, _, rfl⟩ := List.mem_map.mp member
    exact ⟨_, _, rfl⟩
  constructor
  · intro strays
    obtain ⟨body, statement, uncounted, broken⟩ := strays
    rcases constraint_mem_path.mp statement with ⟨ends, listed, rfl | rfl⟩ | rfl | side
    · exact absurd rfl (uncounted ends listed)
    · exact .inl ⟨ends, listed, broken⟩
    · exact .inr (.inl broken)
    · exact .inr (.inr ⟨body, side, broken⟩)
  · intro broken
    rcases broken with ⟨ends, listed, broken⟩ | broken | ⟨body, side, broken⟩
    · exact ⟨_, constraint_mem_path.mpr (.inl ⟨ends, listed, .inr rfl⟩), fun _ _ => apart _, broken⟩
    · exact ⟨_, constraint_mem_path.mpr (.inr (.inl rfl)), fun _ _ => apart _, broken⟩
    · obtain ⟨condition, others, rfl⟩ := sides body side
      exact ⟨_, constraint_mem_path.mpr (.inr (.inr side)), fun _ _ => apart _, broken⟩

theorem breaks_bothEnds : Program.Breaks world bothEnds ↔
    ∃ v w, world ⟨pathStart, [v, w]⟩ ∧ world ⟨pathEnd, [v, w]⟩ := by
  have met (binding : Binding) : (∀ literal ∈ bothEnds, literal.Holds world (bothEnds.flatMap Literal.outer) binding) ↔
      world ⟨pathStart, [binding "R", binding "C"]⟩ ∧ world ⟨pathEnd, [binding "R", binding "C"]⟩ := by
    rw [bothEnds, List.forall_mem_cons, List.forall_mem_singleton]
    exact and_congr holds_here holds_here
  constructor
  · intro broken
    obtain ⟨binding, holds⟩ := broken
    exact ⟨_, _, (met binding).mp holds⟩
  · intro found
    obtain ⟨v, w, holds⟩ := found
    exact ⟨fun name => if name = "R" then v else w, (met _).mpr holds⟩

/-- Marks on cells of finitely many given facts are counted. -/
theorem breaks_notOne (finite : {fact | given fact}.Finite) (onCells : ∀ place, world ⟨marker, place⟩ →
      ∃ v w, place = [v, w] ∧ given ⟨Relation.grid, place⟩) :
    Program.Breaks world (notOne marker) ↔ ¬ ∃! fact : Fact, fact.relation = marker ∧ world fact := by
  have fewMarks : {place | world ⟨marker, place⟩}.Finite := by
    refine (finite.image Fact.values).subset fun place marked => ?_
    obtain ⟨_, _, _, onGrid⟩ := onCells place marked
    exact ⟨_, onGrid, rfl⟩
  have listed (binding : Binding) (tuple : List Value) : tuple ∈ fewMarks.toFinset.toList ↔
      Element.Yields world [] binding ⟨Place.here.args.map .term, [.holds (.cell marker .here)]⟩ tuple := by
    rw [Finset.mem_toList, Set.Finite.mem_toFinset, Set.mem_ofPred_eq, yields_mark]
    constructor
    · intro marked
      obtain ⟨v, w, rfl, _⟩ := onCells tuple marked
      exact ⟨v, w, rfl, marked⟩
    · intro found
      obtain ⟨v, w, rfl, marked⟩ := found
      exact marked
  have single : fewMarks.toFinset.card = 1 ↔ ∃! fact : Fact, fact.relation = marker ∧ world fact := by
    simp only [Finset.card_eq_one, Finset.eq_singleton_iff_unique_mem, Set.Finite.mem_toFinset, Set.mem_ofPred_eq]
    constructor
    · intro found
      obtain ⟨place, marked, only⟩ := found
      refine ⟨⟨marker, place⟩, ⟨rfl, marked⟩, fun fact both => ?_⟩
      obtain ⟨rfl, marked'⟩ := both
      exact congrArg (Fact.mk _) (only fact.values marked')
    · intro found
      obtain ⟨fact, ⟨rfl, marked⟩, only⟩ := found
      exact ⟨fact.values, marked, fun place marked' => congrArg Fact.values (only ⟨_, place⟩ ⟨rfl, marked'⟩)⟩
  have met (binding : Binding) : (∀ literal ∈ notOne marker, literal.Holds world [] binding) ↔
      ¬ ∃! fact : Fact, fact.relation = marker ∧ world fact := by
    rw [notOne, List.forall_mem_singleton, Literal.count_holds_iff (Finset.nodup_toList _) (listed binding),
      Finset.length_toList, ← single]
    simp [Comparator.holds]
  exact ⟨fun broken => broken.elim fun binding holds => (met binding).mp holds,
    fun other => ⟨fun _ => .inf, (met _).mpr other⟩⟩

theorem degree_congr {relation : String} {outer : List String} {binding other : Binding} {comparator : Comparator}
    {sides : Int} (agree : ∀ name ∈ outer, binding name = other name)
    (holds : (degree relation comparator sides).Holds world outer binding) :
    (degree relation comparator sides).Holds world outer other := by
  obtain ⟨tuples, distinct, listed, counted⟩ := holds
  refine ⟨tuples, distinct, fun tuple => (listed tuple).trans ?_, counted⟩
  refine exists_congr fun inner => and_congr_left fun _ => ?_
  exact forall_congr' fun name => forall_congr' fun known => by rw [agree name known]

def idle (color : Color) (relation : String) : List Literal :=
  [.test (onGrid .here), .test (color.on .here), degree relation .eq 0]

/-- The cell is of the color, and it has no side of the relation. -/
def Bare (given : World) (color : Color) (relation : String) (place : List Value) : Prop :=
  ∃ binding : Binding, place = [binding "R", binding "C"] ∧
    ∀ literal ∈ idle color relation, literal.Holds given ["R", "C", "R", "C", "R", "C"] binding

namespace Bare

variable {relation relation' : String} {place : List Value}

theorem onGrid (bare : Bare given color relation place) : ∃ v w, place = [v, w] ∧ given ⟨Relation.grid, place⟩ := by
  obtain ⟨binding, rfl, met⟩ := bare
  exact ⟨_, _, rfl, holds_here.mp (met _ List.mem_cons_self)⟩

/-- Whether a cell has a side does not depend on its color. -/
theorem swap (bare : Bare given one relation place) (bare' : Bare given other relation' place) :
    Bare given one relation' place := by
  obtain ⟨binding, rfl, met⟩ := bare
  obtain ⟨binding', same, met'⟩ := bare'
  simp only [List.cons.injEq, and_true] at same
  rw [idle, List.forall_mem_cons, List.forall_mem_cons, List.forall_mem_singleton] at met met'
  refine ⟨binding, rfl, ?_⟩
  rw [idle, List.forall_mem_cons, List.forall_mem_cons, List.forall_mem_singleton]
  refine ⟨met.1, met.2.1, degree_congr (fun name known => ?_) met'.2.2⟩
  obtain rfl | rfl : name = "R" ∨ name = "C" := by
    simp only [List.mem_cons, List.not_mem_nil, or_false] at known
    tauto
  · exact same.1.symm
  · exact same.2.symm

end Bare

theorem fires_iff {ends : String × String} (listed : ends ∈ pathEnds) (place : List Value) :
    (directedLoop color true).Fires given ⟨ends.1, place⟩ ↔ Bare given color ends.2 place := by
  have scope : Program.ruleScope (.cell ends.1 .here) (idle color ends.2) = ["R", "C", "R", "C", "R", "C"] := by
    cases color <;> rfl
  constructor
  · intro fires
    rcases fires with ⟨_, statement, _⟩ | ⟨head, body, statement, binding, denoted, met⟩
    · exact absurd (List.mem_append_right _ statement) fact_mem_directed
    · obtain ⟨_, ends', listed', rfl, rfl⟩ := rule_mem_directed.mp (List.mem_append_right _ statement)
      have markers : ∀ ends ∈ pathEnds, ∀ ends' ∈ pathEnds, ends.1 = ends'.1 → ends = ends' := by decide
      cases markers ends listed ends' listed' denoted.1
      exact ⟨binding, (Fact.mk.inj (here_denotes.mp denoted)).2, scope ▸ met⟩
  · intro bare
    obtain ⟨binding, rfl, met⟩ := bare
    have statement : .rule (.cell ends.1 .here) (idle color ends.2) ∈ (directedLoop color true).statements := by
      rcases List.mem_pair.mp listed with rfl | rfl <;> simp [directedLoop, markedEnd, idle]
    exact .inr ⟨_, _, statement, binding, here_denotes.mpr rfl, scope.symm ▸ met⟩

theorem model_freePath : (freePath color true ++ directedLoop color true).Model given world ↔
    (directedLoop color true).Model given world := by
  refine Program.model_congr (fun atom => ?_) fun head body => ?_ <;>
    rw [Program.statements_append, List.mem_append, or_iff_right (by simp [freePath, pickSides])]

/-- With one start, another end and sides that answer each other, a path breaks no constraint. -/
theorem path_kept {rows cols : Nat} {entering leaving : Course rows cols} {start finish : Int × Int}
    (unmarked : ∀ fact, given fact → fact.relation ∉ [pathStart, pathEnd])
    (model : (directedLoop color true).Model given world) (enters : world.Draws Relation.enters entering)
    (leaves : world.Draws Relation.leaves leaving)
    (starts : ∀ cell, entering.Stops (Colored world color) cell ↔ cell = start)
    (finishes : ∀ cell, leaving.Stops (Colored world color) cell ↔ cell = finish) (apart : start ≠ finish)
    (few : ∀ cell, Colored world color cell →
      entering.degree cell.1 cell.2 ≤ 1 ∧ leaving.degree cell.1 cell.2 ≤ 1)
    (sides : ∀ body ∈ sideBodies, ¬ Program.Breaks world body) : ¬ (directedLoop color true).Violated world := by
  have model := model_freePath.mpr model
  intro violated
  rcases path_violated_iff.mp violated with strays | ⟨ends, listed, broken⟩
  · rcases strays_iff.mp strays with ⟨ends, listed, broken⟩ | broken | ⟨body, member, broken⟩
    · rcases List.mem_pair.mp listed with rfl | rfl
      · obtain ⟨row, col, _, matched, more⟩ := (breaks_degree enters color .gt 1).mp broken
        exact above_one.mp more (few (row, col) matched).1
      · obtain ⟨row, col, _, matched, more⟩ := (breaks_degree leaves color .gt 1).mp broken
        exact above_one.mp more (few (row, col) matched).2
    · obtain ⟨cell, stops, stops'⟩ := (breaks_both unmarked model enters leaves).mp broken
      exact apart (((starts cell).mp stops).symm.trans ((finishes cell).mp stops'))
    · exact sides body member broken
  · rcases List.mem_pair.mp listed with rfl | rfl
    · exact (breaks_marked unmarked model start_mem enters).mp broken ⟨_, starts⟩
    · exact (breaks_marked unmarked model end_mem leaves).mp broken ⟨_, finishes⟩

end GridPuzzle.Template
