import GridPuzzle.Template.Connection
import GridPuzzle.Proofs.Board.Facts

/-!
Labels that spread. A label that starts at cells of a color and spreads to neighbors of that color reaches
all cells that are joined to a starting one, so that the cells of the color are covered exactly if each of
them is.
-/
namespace GridPuzzle.Template

/-- Rules that start a label, each with the place it labels, then its spread and what it has to cover. -/
def spreading (label : String) (color : Color) (kind : Adjacency) (rules : List (Place × List Literal)) :
    Program :=
  ⟨rules.map (fun rule => .rule (.cell label rule.1) rule.2) ++
    [spread label color kind, covered label color]⟩

/-- Some rule labels the fact's cell. -/
def Fires (world : World) (label : String) (rules : List (Place × List Literal)) (fact : Fact) : Prop :=
  ∃ rule ∈ rules, ∃ binding, (Atom.cell label rule.1).Denotes binding fact ∧
    ∀ literal ∈ rule.2, literal.Holds world (Program.ruleScope (.cell label rule.1) rule.2) binding

/-- By a look at the grid and the color alone, the rules label cells of the color, which are those where
the label starts. -/
structure Starts (board : Board) (label : String) (color : Color) (rules : List (Place × List Literal))
    (start : Cell → Prop) : Prop where
  looks : ∀ rule ∈ rules, ∀ literal ∈ rule.2, ∀ relation ∈ literal.relations,
    relation ∈ [Relation.grid, color.name]
  shaded : ∀ cell, start cell → (board.colored color).isShaded cell = true
  fires : ∀ world : World, world.Shows board (some color) → ∀ fact,
    Fires world label rules fact ↔ ∃ cell, start cell ∧ fact = .cell label cell.row.val cell.col.val

/-- What is given shows the board and its neighbors, and says nothing of the label. -/
structure Feeds (given : World) (board : Board) (label : String) (color : Color) (kind : Adjacency)
    (includeSelf : Bool) : Prop where
  shows : given.Shows board (some color)
  neighbors : ∀ fact : Fact, fact.relation = kind.relation →
    (given fact ↔ board.adjacencyFacts kind includeSelf fact)
  fresh : ∀ fact, given fact → fact.relation ≠ label
  apart : ∀ relation ∈ [Relation.grid, color.name, kind.relation], label ≠ relation

/-- The cell is joined to one where the label starts. -/
def Covered (board : Board) (kind : Adjacency) (start : Cell → Prop) (cell : Cell) : Prop :=
  ∃ source, start source ∧ board.Joined kind source cell

variable {board : Board} {label : String} {color : Color} {kind : Adjacency} {includeSelf : Bool}
  {rules : List (Place × List Literal)} {start : Cell → Prop} {given world : World}

theorem spread_eq : spread label color kind = .rule (.cell label .here)
    (.holds (.cell label .other) :: inColor (some color) ++ [.holds (kind.joins .here .other)]) := rfl

theorem rule_mem_spreading {head : Atom} {body : List Literal} :
    .rule head body ∈ (spreading label color kind rules).statements ↔
      (∃ rule ∈ rules, head = .cell label rule.1 ∧ body = rule.2) ∨
      head = .cell label .here ∧ body = .holds (.cell label .other) :: inColor (some color) ++
        [.holds (kind.joins .here .other)] := by
  simp [spreading, spread_eq, covered, @eq_comm _ _ head, @eq_comm _ _ body]

theorem fact_not_mem_spreading {atom : Atom} :
    .fact atom ∉ (spreading label color kind rules).statements := by
  simp [spreading, spread_eq, covered]

theorem constraint_mem_spreading {body : List Literal} :
    .constraint body ∈ (spreading label color kind rules).statements ↔
      body = inColor (some color) ++ [.fails (.cell label .here)] := by
  simp [spreading, spread_eq, covered, inColor]

theorem defines_spreading {relation : String} (defines : (spreading label color kind rules).Defines relation) :
    relation = label := by
  rcases defines with ⟨atom, statement, _⟩ | ⟨head, body, statement, rfl⟩
  · exact absurd statement fact_not_mem_spreading
  · rcases rule_mem_spreading.mp statement with ⟨rule, _, rfl, _⟩ | ⟨rfl, _⟩ <;> rfl

/-- The rules that start the label may look at the grid and the color, which are not the label. -/
theorem existsUnique_spreading_of_looks
    (looks : ∀ rule ∈ rules, ∀ literal ∈ rule.2, ∀ relation ∈ literal.relations, relation ∈ [Relation.grid, color.name])
    (apart : ∀ relation ∈ [Relation.grid, color.name], label ≠ relation) (given : World) :
    ∃! world, (spreading label color kind rules).Model given world := by
  refine Program.existsUnique_model_of_lower [Relation.grid, color.name] ?_ ?_ _
  · intro relation lower defines
    exact apart relation lower (defines_spreading defines).symm
  · intro head body statement literal member negative relation looked
    rcases rule_mem_spreading.mp statement with ⟨rule, listed, rfl, rfl⟩ | ⟨rfl, rfl⟩
    · exact looks rule listed literal member relation looked
    · rw [List.mem_append, List.mem_cons, List.mem_singleton] at member
      rcases member with (rfl | inside) | rfl
      · exact absurd rfl (negative _)
      · obtain ⟨own, chosen, rfl⟩ := inColor_relations inside negative looked
        cases chosen
        exact List.mem_cons_of_mem _ (List.mem_singleton_self color.name)
      · exact absurd rfl (negative _)

theorem existsUnique_spreading (starts : Starts board label color rules start)
    (feeds : Feeds given board label color kind includeSelf) :
    ∃! world, (spreading label color kind rules).Model given world :=
  existsUnique_spreading_of_looks starts.looks
    (fun relation lower => feeds.apart relation (List.mem_append_left [kind.relation] lower)) given

section Model

variable (fixed : kind.Fixed) (starts : Starts board label color rules start)
  (feeds : Feeds given board label color kind includeSelf)
  (model : (spreading label color kind rules).Model given world)
include feeds model

theorem Feeds.world_shows : world.Shows board (some color) := by
  refine feeds.shows.of_model model ?_ ?_
  · intro defines
    exact feeds.apart Relation.grid (by simp) (defines_spreading defines).symm
  · intro own chosen defines
    cases chosen
    exact feeds.apart color.name (by simp) (defines_spreading defines).symm

theorem Feeds.world_neighbors (fact : Fact) (same : fact.relation = kind.relation) :
    world fact ↔ board.adjacencyFacts kind includeSelf fact := by
  rw [model.iff_given, feeds.neighbors fact same]
  intro defines
  exact feeds.apart kind.relation (by simp) ((same.symm.trans (defines_spreading defines)).symm)

include starts

theorem labelled_start {cell : Cell} (isStart : start cell) : world (.cell label cell.row.val cell.col.val) := by
  obtain ⟨rule, member, binding, denoted, met⟩ :=
    (starts.fires world (feeds.world_shows model) _).mpr ⟨cell, isStart, rfl⟩
  exact (model.iff_supported _).mpr (.inr (.inr ⟨_, _, rule_mem_spreading.mpr (.inl ⟨rule, member, rfl, rfl⟩),
    binding, denoted, met⟩))

omit starts in
theorem labelled_step {cell next : Cell} (labelled : world (.cell label cell.row.val cell.col.val))
    (shaded : (board.colored color).isShaded next = true) (adjacent : board.adjacent next cell kind = .ok true) :
    world (.cell label next.row.val next.col.val) := by
  obtain ⟨binding, here, other⟩ :=
    Place.exists_here_other next.row.val next.col.val cell.row.val cell.col.val
  have joins := (feeds.world_neighbors model _ rfl).mpr (Board.adjacencyFacts_pair.mpr (.inl adjacent))
  refine (model.iff_supported _).mpr (.inr (.inr ⟨_, _, rule_mem_spreading.mpr (.inr ⟨rfl, rfl⟩), binding,
    here_denotes_cell.mpr ⟨rfl, here⟩, ?_⟩))
  refine List.forall_mem_append.mpr ⟨List.forall_mem_cons.mpr ⟨?_, ?_⟩, List.forall_mem_singleton.mpr ?_⟩
  · exact (holds_cell other.stands).mpr labelled
  · exact ((feeds.world_shows model).inColor_holds here).mpr (Board.shades_cell.mpr shaded)
  · exact (holds_pair here.stands other.stands).mpr joins

include fixed

theorem labelled_of_covered {cell : Cell} (reached : Covered (board.colored color) kind start cell) :
    world (.cell label cell.row.val cell.col.val) := by
  obtain ⟨source, isStart, joined⟩ := reached
  induction joined with
  | refl => exact labelled_start starts feeds model isStart
  | tail _ linked ih =>
    have back := Board.adjacent_symm fixed linked.2.2
    rw [← Board.tinted, Board.adjacent_tinted] at back
    exact labelled_step feeds model ih linked.2.1 back

theorem covered_of_labelled (fact : Fact) (holds : world fact) (labelled : fact.relation = label) :
    ∃ cell, Covered (board.colored color) kind start cell ∧ fact = .cell label cell.row.val cell.col.val := by
  have shows := feeds.world_shows model
  revert labelled
  -- by induction on derivations: the label starts at a covered cell and passes to one linked with it
  refine model.induction (fun fact => fact.relation = label → ∃ cell,
    Covered (board.colored color) kind start cell ∧ fact = .cell label cell.row.val cell.col.val)
    ?_ ?_ ?_ fact holds
  · intro fact isGiven labelled
    exact absurd labelled (feeds.fresh fact isGiven)
  · intro atom statement
    exact absurd statement fact_not_mem_spreading
  · intro head body statement binding met before fact denoted _
    rcases rule_mem_spreading.mp statement with ⟨rule, member, rfl, rfl⟩ | ⟨rfl, rfl⟩
    · obtain ⟨cell, isStart, same⟩ := (starts.fires world shows fact).mp ⟨rule, member, binding, denoted, met⟩
      exact ⟨cell, ⟨cell, isStart, .refl⟩, same⟩
    · rw [List.forall_mem_append, List.forall_mem_cons] at met
      obtain ⟨premise, premiseDenoted, _, earlier⟩ := before _ (List.mem_append_left _ List.mem_cons_self)
      obtain ⟨cell, ⟨source, isStart, joined⟩, rfl⟩ := earlier premiseDenoted.1
      have other := (Atom.denotes_iff (other_args binding)).mp premiseDenoted
      simp only [Fact.cell, Fact.mk.injEq, List.cons.injEq, true_and, and_true] at other
      obtain ⟨row, col, _, here⟩ := shows.onGrid_here.mp (met.1.2 _ List.mem_cons_self)
      obtain ⟨next, shaded, rfl, rfl⟩ := (shows.inColor_holds here).mp met.1.2
      have joins := (holds_pair here.stands (Place.Other.stands ⟨other.1.symm, other.2.symm⟩)).mp
        (met.2 _ (List.mem_singleton_self _))
      have beside := Board.adjacencyFacts_pair.mp ((feeds.world_neighbors model _ rfl).mp joins)
      refine ⟨next, ⟨source, isStart, ?_⟩, ?_⟩
      · rcases beside with adjacent | ⟨_, rfl, _⟩
        · have back := Board.adjacent_symm fixed adjacent
          rw [← Board.adjacent_tinted (some color)] at back
          exact joined.tail ⟨joined.isShaded (starts.shaded source isStart), shaded, back⟩
        · exact joined
      · exact (Atom.denotes_iff here.stands.args).mp denoted

theorem labelled_iff (fact : Fact) (labelled : fact.relation = label) : world fact ↔
    ∃ cell, Covered (board.colored color) kind start cell ∧ fact = .cell label cell.row.val cell.col.val := by
  refine ⟨fun holds => covered_of_labelled fixed starts feeds model fact holds labelled, fun reached => ?_⟩
  obtain ⟨cell, covered, rfl⟩ := reached
  exact labelled_of_covered fixed starts feeds model covered

theorem labelled_cell {cell : Cell} : world (.cell label cell.row.val cell.col.val) ↔
    Covered (board.colored color) kind start cell := by
  rw [labelled_iff fixed starts feeds model _ rfl]
  refine ⟨fun reached => ?_, fun covered => ⟨cell, covered, rfl⟩⟩
  obtain ⟨other, covered, same⟩ := reached
  obtain ⟨_, rows, cols⟩ := Fact.cell_inj.mp same
  exact Cell.ext rows cols ▸ covered

/-- The one constraint is broken where the label leaves out a cell of the color. -/
theorem violated_spreading : (spreading label color kind rules).Violated world ↔
    ∃ cell, (board.colored color).isShaded cell = true ∧
      ¬ Covered (board.colored color) kind start cell := by
  have shows := feeds.world_shows model
  constructor
  · intro violated
    obtain ⟨body, statement, binding, met⟩ := violated
    rw [constraint_mem_spreading] at statement
    subst statement
    rw [List.forall_mem_append, List.forall_mem_singleton] at met
    obtain ⟨row, col, _, here⟩ := shows.onGrid_here.mp (met.1 _ List.mem_cons_self)
    obtain ⟨cell, shaded, rfl, rfl⟩ := (shows.inColor_holds here).mp met.1
    refine ⟨cell, shaded, fun reached => ?_⟩
    exact (fails_cell here.stands).mp met.2 ((labelled_cell fixed starts feeds model).mpr reached)
  · intro missed
    obtain ⟨cell, shaded, uncovered⟩ := missed
    obtain ⟨binding, here⟩ := Place.exists_here cell.row.val cell.col.val
    refine ⟨_, constraint_mem_spreading.mpr rfl, binding, List.forall_mem_append.mpr
      ⟨(shows.inColor_holds here).mpr (Board.shades_cell.mpr shaded), List.forall_mem_singleton.mpr ?_⟩⟩
    exact (fails_cell here.stands).mpr fun labelled =>
      uncovered ((labelled_cell fixed starts feeds model).mp labelled)

end Model

end GridPuzzle.Template
