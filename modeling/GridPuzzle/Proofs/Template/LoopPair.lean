import GridPuzzle.Proofs.Template.PathMarks

/-!
Loops of two colors. What the rules derive for the two together is what they derive for each, and where they
derive no marks, the two break constraints together just if one of them does. Marks of the ends of a path do not
tell which color they belong to, so that those of both colors are counted as one.
-/
namespace GridPuzzle.Template

theorem relations_onGrid : Literal.relations (.test (onGrid .here)) = [Relation.grid] := rfl

theorem relations_on (color : Color) : Literal.relations (.test (color.on .here)) = [color.name] := by
  cases color <;> rfl

theorem relations_degree (relation : String) (comparator : Comparator) (sides : Int) :
    (degree relation comparator sides).relations = [relation] := rfl

inductive LoopRules
  | simple
  | crossing
  | directed

namespace LoopRules

def program : LoopRules → Color → Bool → Program
  | .simple => simpleLoop
  | .crossing => crossingLoop
  | .directed => directedLoop

/-- The rules mark where a path starts and where it ends. -/
def Marks (loop : LoopRules) (path : Bool) : Prop := loop = .directed ∧ path = true

def heads : LoopRules → List String
  | .directed => [pathStart, pathEnd]
  | _ => [passedBy]

/-- The relations that rules look at. -/
def looks (color : Color) : LoopRules → List String
  | .directed => [color.name, Relation.grid, Relation.enters, Relation.leaves]
  | _ => [Relation.grid, Relation.passes]

variable {loop : LoopRules} {color one other : Color} {path : Bool} {given world : World} {head : Atom}
  {body : List Literal}

theorem fact_not_mem {atom : Atom} : .fact atom ∉ (loop.program color path).statements := by
  cases loop with
  | simple => exact fun statement => fact_mem_loop (List.mem_append_right _ statement)
  | crossing => exact fun statement => fact_mem_loop (List.mem_append_right _ statement)
  | directed => exact fun statement => fact_mem_directed (List.mem_append_right _ statement)

theorem rule_mem_passes {degrees : List Int} : .rule head body ∈ (passes color degrees path).statements ↔
    ∃ sides ∈ degrees, head = .cell passedBy .here ∧
      body = [.test (onGrid .here), degree Relation.passes .eq sides] := by
  cases path <;> simp [passes, answered, eq_comm]

/-- Where nothing is marked, the rules are those of any other color. -/
theorem rule_mem_swap (unmarked : ¬ loop.Marks path) : .rule head body ∈ (loop.program one path).statements ↔
    .rule head body ∈ (loop.program other path).statements := by
  cases loop with
  | simple => exact rule_mem_passes.trans rule_mem_passes.symm
  | crossing => exact rule_mem_passes.trans rule_mem_passes.symm
  | directed =>
    have none (color : Color) : .rule head body ∉ (directedLoop color path).statements := fun statement =>
      unmarked ⟨rfl, (rule_mem_directed.mp (List.mem_append_right _ statement)).1⟩
    exact iff_of_false (none one) (none other)

theorem model_swap (unmarked : ¬ loop.Marks path) :
    (loop.program one path).Model given world ↔ (loop.program other path).Model given world :=
  Program.model_congr (fun _ => iff_of_false fact_not_mem fact_not_mem) fun _ _ => rule_mem_swap unmarked

theorem model_append (unmarked : ¬ loop.Marks path) :
    (loop.program one path ++ loop.program other path).Model given world ↔
      (loop.program one path).Model given world := by
  refine Program.model_congr (fun atom => ?_) fun head body => ?_ <;>
    rw [Program.statements_append, List.mem_append]
  · exact or_iff_left fact_not_mem
  · exact (or_congr_right (rule_mem_swap unmarked)).trans or_self_iff

theorem reads_of_rule_mem (statement : .rule head body ∈ (loop.program color path).statements) :
    (loop = .directed → path = true) ∧ head.relation ∈ loop.heads ∧
      ∀ literal ∈ body, ∀ relation ∈ literal.relations, relation ∈ loop.looks color := by
  have passing {degrees : List Int} (statement : .rule head body ∈ (passes color degrees path).statements) :
      head.relation = passedBy ∧
        ∀ literal ∈ body, ∀ relation ∈ literal.relations, relation ∈ [Relation.grid, Relation.passes] := by
    obtain ⟨sides, _, rfl, rfl⟩ := rule_mem_passes.mp statement
    simp only [List.forall_mem_cons, relations_onGrid, relations_degree]
    exact ⟨rfl, by decide⟩
  cases loop with
  | simple =>
    obtain ⟨isMark, reads⟩ := passing statement
    exact ⟨nofun, List.mem_singleton.mpr isMark, reads⟩
  | crossing =>
    obtain ⟨isMark, reads⟩ := passing statement
    exact ⟨nofun, List.mem_singleton.mpr isMark, reads⟩
  | directed =>
    obtain ⟨isPath, ends, listed, rfl, rfl⟩ := rule_mem_directed.mp (List.mem_append_right _ statement)
    refine ⟨fun _ => isPath, List.mem_map_of_mem (f := Prod.fst) listed, ?_⟩
    simp only [List.forall_mem_cons, relations_onGrid, relations_on, relations_degree]
    rcases List.mem_pair.mp listed with rfl | rfl <;> simp [looks]

theorem head_of_defines {relation : String}
    (defines : (loop.program one path ++ loop.program other path).Defines relation) : relation ∈ loop.heads := by
  have head {color : Color} (defines : (loop.program color path).Defines relation) : relation ∈ loop.heads := by
    rcases defines with ⟨_, statement, _⟩ | ⟨_, _, statement, rfl⟩
    · exact absurd statement fact_not_mem
    · exact (reads_of_rule_mem statement).2.1
  rcases Program.defines_append.mp defines with ofOne | ofOther
  · exact head ofOne
  · exact head ofOther

theorem flat (named : loop.Marks path → ∀ color ∈ [one, other], color.name ∉ [pathStart, pathEnd]) :
    (loop.program one path ++ loop.program other path).Flat := by
  intro head body statement literal inBody relation looked defines
  have isHead := head_of_defines defines
  obtain ⟨color, listed, statement⟩ : ∃ color ∈ [one, other],
      .rule head body ∈ (loop.program color path).statements := by
    simpa [Program.statements_append] using statement
  obtain ⟨isPath, _, reads⟩ := reads_of_rule_mem statement
  have isLooked := reads literal inBody relation looked
  have apart : ∀ relation ∈ [Relation.grid, Relation.passes], relation ∉ [passedBy] := by decide
  cases loop with
  | simple => exact apart relation isLooked isHead
  | crossing => exact apart relation isLooked isHead
  | directed =>
    have apart : ∀ relation ∈ [Relation.grid, Relation.enters, Relation.leaves],
        relation ∉ [pathStart, pathEnd] := by decide
    rcases List.mem_cons.mp isLooked with rfl | isFixed
    · exact named ⟨rfl, isPath rfl⟩ color listed isHead
    · exact apart relation isFixed isHead

end LoopRules

variable {color one other : Color} {given world first second both : World} {body : List Literal}

theorem unmarked_sides : ∀ body ∈ sideBodies, ∀ literal ∈ body, ∀ relation ∈ literal.relations,
    relation ∉ [pathStart, pathEnd] := by
  decide

theorem unmarked_crowded (named : color.name ∉ [pathStart, pathEnd]) {ends : String × String}
    (listed : ends ∈ pathEnds) : ∀ literal ∈ crowded color ends.2, ∀ relation ∈ literal.relations,
      relation ∉ [pathStart, pathEnd] := by
  simp only [crowded, List.forall_mem_cons, relations_onGrid, relations_on, relations_degree]
  have apart : ∀ ends ∈ pathEnds, ends.2 ∉ [pathStart, pathEnd] := by decide
  have none {α : Type} {property : α → Prop} := List.forall_mem_nil property
  exact ⟨⟨by decide, none⟩, ⟨named, none⟩, ⟨apart ends listed, none⟩, none⟩

theorem defines_pair {relation : String}
    (defines : (directedLoop one true ++ directedLoop other true).Defines relation) :
    relation ∈ [pathStart, pathEnd] :=
  @LoopRules.head_of_defines .directed one other true relation defines

/-- What does not depend on marks is broken by the facts of one color just if it is by those of both. -/
theorem breaks_alike (ofOne : (directedLoop one true).Model given first)
    (ofOther : (directedLoop other true).Model given second)
    (joint : (directedLoop one true ++ directedLoop other true).Model given both)
    (unmarked : ∀ literal ∈ body, ∀ relation ∈ literal.relations, relation ∉ [pathStart, pathEnd]) :
    (Program.Breaks both body ↔ Program.Breaks first body) ∧
      (Program.Breaks both body ↔ Program.Breaks second body) := by
  have undefined (literal : Literal) (member : literal ∈ body) (relation : String)
      (looked : relation ∈ literal.relations) :
      ¬ (directedLoop one true ++ directedLoop other true).Defines relation := fun defines =>
    unmarked literal member relation looked (defines_pair defines)
  rw [joint.breaks_iff undefined]
  constructor
  · exact (ofOne.breaks_iff fun literal member relation looked defines =>
      undefined literal member relation looked (Program.defines_append.mpr (.inl defines))).symm
  · exact (ofOther.breaks_iff fun literal member relation looked defines =>
      undefined literal member relation looked (Program.defines_append.mpr (.inr defines))).symm

/-- The given facts are finitely many, no marks are among them, and no color bears the name of a mark. -/
structure Fresh (given : World) (colors : List Color) : Prop where
  finite : {fact | given fact}.Finite
  unmarked : ∀ fact, given fact → fact.relation ∉ [pathStart, pathEnd]
  named : ∀ color ∈ colors, color.name ∉ [pathStart, pathEnd]

namespace Fresh

variable {ends : String × String} {colors : List Color} (fresh : Fresh given colors)
include fresh

theorem flat (listed : one ∈ colors) (listed' : other ∈ colors) :
    (directedLoop one true ++ directedLoop other true).Flat := by
  refine @LoopRules.flat .directed one other true fun _ => ?_
  rw [List.forall_mem_cons, List.forall_mem_singleton]
  exact ⟨fresh.named one listed, fresh.named other listed'⟩

theorem marked_iff (listed : color ∈ colors) (model : (directedLoop color true).Model given world)
    (isEnd : ends ∈ pathEnds) (place : List Value) :
    world ⟨ends.1, place⟩ ↔ Bare given color ends.2 place := by
  rw [(fresh.flat listed listed).left.model_iff model, fires_iff isEnd]
  exact or_iff_right fun isGiven => fresh.unmarked _ isGiven (List.mem_map_of_mem (f := Prod.fst) isEnd)

theorem miscounts_iff
    (bare : ∀ ends ∈ pathEnds, ∀ place, world ⟨ends.1, place⟩ → ∃ color, Bare given color ends.2 place) :
    (∃ ends ∈ pathEnds, Program.Breaks world (notOne ends.1)) ↔ Miscounts world := by
  have counted (ends : String × String) (isEnd : ends ∈ pathEnds) : Program.Breaks world (notOne ends.1) ↔
      ¬ ∃! fact : Fact, fact.relation = ends.1 ∧ world fact := by
    refine breaks_notOne fresh.finite fun place marked => ?_
    obtain ⟨color, isBare⟩ := bare ends isEnd place marked
    exact isBare.onGrid
  have markers : [pathStart, pathEnd] = pathEnds.map Prod.fst := rfl
  rw [Miscounts, markers]
  simp only [List.mem_map, exists_exists_and_eq_and]
  exact exists_congr fun ends => and_congr_right (counted ends)

theorem violated_iff (listed : color ∈ colors) (model : (directedLoop color true).Model given world) :
    (directedLoop color true).Violated world ↔ Strays color world ∨ Miscounts world := by
  rw [path_violated_iff]
  refine or_congr_right (fresh.miscounts_iff fun ends isEnd place marked => ?_)
  exact ⟨color, (fresh.marked_iff listed model isEnd place).mp marked⟩

section Pair

variable (listed : one ∈ colors) (listed' : other ∈ colors) (ofOne : (directedLoop one true).Model given first)
  (ofOther : (directedLoop other true).Model given second)
  (joint : (directedLoop one true ++ directedLoop other true).Model given (first.join second))
include listed listed' ofOne ofOther

/-- A cell that is a start for one color and an end for the other one is both for both. -/
theorem breaks_bothEnds_join : Program.Breaks (first.join second) bothEnds ↔
    Program.Breaks first bothEnds ∨ Program.Breaks second bothEnds := by
  simp only [breaks_bothEnds, World.join, ← exists_or]
  refine exists_congr fun v => exists_congr fun w => ?_
  rw [fresh.marked_iff listed ofOne start_mem, fresh.marked_iff listed ofOne end_mem,
    fresh.marked_iff listed' ofOther start_mem, fresh.marked_iff listed' ofOther end_mem]
  constructor
  · intro marked
    rcases marked with ⟨start | start, finish | finish⟩
    · exact .inl ⟨start, finish⟩
    · exact .inl ⟨start, start.swap finish⟩
    · exact .inr ⟨start, start.swap finish⟩
    · exact .inr ⟨start, finish⟩
  · intro marked
    rcases marked with ⟨start, finish⟩ | ⟨start, finish⟩
    · exact ⟨.inl start, .inl finish⟩
    · exact ⟨.inr start, .inr finish⟩

include joint

/-- Apart from counts of marks, two paths break together what one of them breaks. -/
theorem strays_join : Strays one (first.join second) ∨ Strays other (first.join second) ↔
    Strays one first ∨ Strays other second := by
  have crowded_iff := exists_congr fun ends => and_congr_right fun isEnd : ends ∈ pathEnds =>
    (breaks_alike ofOne ofOther joint (unmarked_crowded (fresh.named one listed) isEnd)).1
  have crowded_iff' := exists_congr fun ends => and_congr_right fun isEnd : ends ∈ pathEnds =>
    (breaks_alike ofOne ofOther joint (unmarked_crowded (fresh.named other listed') isEnd)).2
  have sides_iff := exists_congr fun body => and_congr_right fun isBody : body ∈ sideBodies =>
    (breaks_alike ofOne ofOther joint (unmarked_sides body isBody)).1
  have sides_iff' := exists_congr fun body => and_congr_right fun isBody : body ∈ sideBodies =>
    (breaks_alike ofOne ofOther joint (unmarked_sides body isBody)).2
  rw [strays_iff, strays_iff, strays_iff, strays_iff, crowded_iff, crowded_iff', ← sides_iff', sides_iff,
    fresh.breaks_bothEnds_join listed listed' ofOne ofOther]
  refine or_or_or_comm.trans ((or_congr_right ?_).trans or_or_or_comm)
  rw [or_self]
  exact or_or_distrib_right

theorem violated_append_iff : (directedLoop one true ++ directedLoop other true).Violated (first.join second) ↔
    (Strays one first ∨ Strays other second) ∨ Miscounts (first.join second) := by
  rw [Program.violated_append, path_violated_iff, path_violated_iff, ← or_or_distrib_right,
    fresh.strays_join listed listed' ofOne ofOther joint]
  refine or_congr_right (fresh.miscounts_iff fun ends isEnd place marked => ?_)
  rcases marked with ofFirst | ofSecond
  · exact ⟨one, (fresh.marked_iff listed ofOne isEnd place).mp ofFirst⟩
  · exact ⟨other, (fresh.marked_iff listed' ofOther isEnd place).mp ofSecond⟩

end Pair

end Fresh

/-- Whatever is given, the rules of two colors have one model together, and its facts are those of the two models
that they have alone. It breaks a constraint exactly if one of these does, unless ends of paths are marked and the
colors do not mark the same cells: then, besides all other constraints of the two colors, the marks of both are counted
together. -/
theorem loops_together (loop : LoopRules) (path : Bool) (one other : Color) (given : World)
    (fresh : loop.Marks path → Fresh given [one, other]) :
    (∃! first, (loop.program one path).Model given first) ∧
    (∃! second, (loop.program other path).Model given second) ∧
    (∃! both, (loop.program one path ++ loop.program other path).Model given both) ∧
    ∀ first second both, (loop.program one path).Model given first → (loop.program other path).Model given second →
      (loop.program one path ++ loop.program other path).Model given both →
      (∀ fact, both fact ↔ first fact ∨ second fact) ∧
      ((loop.Marks path → ∀ fact : Fact, fact.relation ∈ [pathStart, pathEnd] → (first fact ↔ second fact)) →
        ((loop.program one path ++ loop.program other path).Violated both ↔
          (loop.program one path).Violated first ∨ (loop.program other path).Violated second)) ∧
      (loop.Marks path →
        ((loop.program one path).Violated first ↔ Strays one first ∨ Miscounts first) ∧
        ((loop.program other path).Violated second ↔ Strays other second ∨ Miscounts second) ∧
        ((loop.program one path ++ loop.program other path).Violated both ↔
          (Strays one first ∨ Strays other second) ∨ Miscounts both)) := by
  have flat : (loop.program one path ++ loop.program other path).Flat :=
    LoopRules.flat fun marks => (fresh marks).named
  refine ⟨flat.left.existsUnique_model given, flat.right.existsUnique_model given, flat.existsUnique_model given,
    fun first second both ofOne ofOther joint => ?_⟩
  obtain rfl : both = first.join second := funext fun fact => propext (flat.append_iff joint ofOne ofOther fact)
  refine ⟨fun _ => Iff.rfl, ?_⟩
  by_cases marks : loop.Marks path
  · have listed : one ∈ [one, other] := List.mem_cons_self
    have listed' : other ∈ [one, other] := List.mem_cons_of_mem _ List.mem_cons_self
    obtain ⟨rfl, rfl⟩ := marks
    have fresh := fresh ⟨rfl, rfl⟩
    have alone := fresh.violated_iff listed ofOne
    have alone' := fresh.violated_iff listed' ofOther
    have together := fresh.violated_append_iff listed listed' ofOne ofOther joint
    refine ⟨fun same => ?_, fun _ => ⟨alone, alone', together⟩⟩
    have counted : Miscounts (first.join second) ↔ Miscounts first := by
      refine exists_congr fun marker => and_congr_right fun isMark => not_congr (existsUnique_congr fun fact => ?_)
      refine and_congr_right fun marked => ?_
      rw [World.join, ← same ⟨rfl, rfl⟩ fact (marked ▸ isMark), or_self]
    have counted' : Miscounts first ↔ Miscounts second := by
      refine exists_congr fun marker => and_congr_right fun isMark => not_congr (existsUnique_congr fun fact => ?_)
      exact and_congr_right fun marked => same ⟨rfl, rfl⟩ fact (marked ▸ isMark)
    refine together.trans ((or_congr alone alone').trans ?_).symm
    rw [← counted', counted]
    exact or_or_distrib_right.symm
  · have sameFirst := (flat.left.existsUnique_model given).unique ofOne ((LoopRules.model_append marks).mp joint)
    have sameSecond := (flat.right.existsUnique_model given).unique ofOther ((LoopRules.model_swap marks).mp ofOne)
    refine ⟨fun _ => ?_, fun isMarked => absurd isMarked marks⟩
    rw [← sameFirst, sameSecond, Program.violated_append]

def laneBackSides : List (Int × Int × Side) := [(0, 1, .left), (1, 1, .left)]

def laneSides : List (Int × Int × Side) := [(0, 0, .right), (1, 0, .right)]

def laneBack : Course 2 2 := .ofList laneBackSides (by decide)

def lane : Course 2 2 := .ofList laneSides (by decide)

def laneCells : List (Int × Int) := [(0, 0), (0, 1), (1, 0), (1, 1)]

/-- In each row of two cells, a path leads from the left one to the right one. The upper cells are black, the lower
ones white. -/
def laneList : List Fact :=
  laneCells.map (fun cell => .cell Relation.grid cell.1 cell.2) ++
    (laneBackSides.map (fun place => .through Relation.enters place.1 place.2.1 place.2.2) ++
      (laneSides.map (fun place => .through Relation.leaves place.1 place.2.1 place.2.2) ++
        [.cell "black" 0 0, .cell "black" 0 1, .cell "white" 1 0, .cell "white" 1 1]))

def laneFacts : World := fun fact => fact ∈ laneList

private theorem lane_fresh {colors : List Color} (named : ∀ color ∈ colors, color.name ∉ [pathStart, pathEnd]) :
    Fresh laneFacts colors where
  finite := List.finite_toSet laneList
  unmarked := (by decide : ∀ fact ∈ laneList, fact.relation ∉ [pathStart, pathEnd])
  named := named

private theorem lane_grid (fact : Fact) (isGrid : fact.relation = Relation.grid) :
    laneFacts fact ↔ ∃ row col, InGrid 2 2 row col ∧ fact = .cell Relation.grid row col := by
  constructor
  · intro given
    have grids : ∀ fact ∈ laneList, fact.relation = Relation.grid →
        fact ∈ laneCells.map fun cell => .cell Relation.grid cell.1 cell.2 := by decide
    obtain ⟨cell, member, rfl⟩ := List.mem_map.mp (grids fact given isGrid)
    exact ⟨_, _, (by decide : ∀ cell ∈ laneCells, InGrid 2 2 cell.1 cell.2) cell member, rfl⟩
  · intro found
    obtain ⟨row, col, ⟨⟨_, _⟩, _, _⟩, rfl⟩ := found
    refine List.mem_append_left _ (List.mem_map.mpr ⟨(row, col), ?_, rfl⟩)
    obtain rfl | rfl : row = 0 ∨ row = 1 := by omega
    all_goals
      obtain rfl | rfl : col = 0 ∨ col = 1 := by omega
      all_goals decide

private theorem lane_draws {relation : String} {sides : List (Int × Int × Side)}
    (inside : ∀ place ∈ sides, InGrid 2 2 place.1 place.2.1)
    (listed : ∀ place ∈ sides, Fact.through relation place.1 place.2.1 place.2.2 ∈ laneList)
    (only : ∀ fact ∈ laneList, fact.relation = relation →
      fact ∈ sides.map fun place => .through relation place.1 place.2.1 place.2.2) :
    laneFacts.Draws relation (.ofList sides inside) where
  grid := lane_grid
  sides fact isSide := by
    constructor
    · intro given
      obtain ⟨place, member, rfl⟩ := List.mem_map.mp (only fact given isSide)
      exact ⟨_, _, _, decide_eq_true member, rfl⟩
    · intro found
      obtain ⟨row, col, side, passed, rfl⟩ := found
      exact listed (row, col, side) (of_decide_eq_true passed)

private theorem lane_enters : laneFacts.Draws Relation.enters laneBack := lane_draws _ (by decide) (by decide)

private theorem lane_leaves : laneFacts.Draws Relation.leaves lane := lane_draws _ (by decide) (by decide)

private theorem lane_sides (enters : world.Draws Relation.enters laneBack) (leaves : world.Draws Relation.leaves lane) :
    ∀ body ∈ sideBodies, ¬ Program.Breaks world body := by
  refine List.forall_mem_cons.mpr ⟨fun broken => ?_, fun body member broken => ?_⟩
  · obtain ⟨row, col, side, entered, left⟩ := (breaks_sameSide enters leaves).mp broken
    have apart : ∀ place ∈ laneBackSides, place ∉ laneSides := by decide
    exact apart _ (of_decide_eq_true entered) (of_decide_eq_true left)
  · obtain ⟨side, _, member⟩ := List.mem_flatMap.mp member
    simp only [List.map_cons, List.map_nil, List.mem_pair] at member
    rcases member with rfl | rfl
    · obtain ⟨row, col, entered, missing⟩ := (enters.breaks_answered leaves side).mp broken
      have back : ∀ place ∈ laneBackSides, ((place.2.2.behind (place.1, place.2.1)).1,
          (place.2.2.behind (place.1, place.2.1)).2, place.2.2.opposite) ∈ laneSides := by decide
      exact missing (decide_eq_true (back _ (of_decide_eq_true entered)))
    · obtain ⟨row, col, left, missing⟩ := (leaves.breaks_answered enters side).mp broken
      have onward : ∀ place ∈ laneSides, ((place.2.2.behind (place.1, place.2.1)).1,
          (place.2.2.behind (place.1, place.2.1)).2, place.2.2.opposite) ∈ laneBackSides := by decide
      exact missing (decide_eq_true (onward _ (of_decide_eq_true left)))

private theorem stops_iff {course : Course 2 2} {matched : Int × Int → Prop} {here there : Int × Int}
    (cells : ∀ cell, matched cell ↔ cell ∈ [here, there])
    (none : InGrid 2 2 here.1 here.2 ∧ course.degree here.1 here.2 = 0) (one : course.degree there.1 there.2 = 1)
    (cell : Int × Int) : course.Stops matched cell ↔ cell = here := by
  rw [Course.Stops, OnGrid, cells, List.mem_pair]
  constructor
  · intro stops
    obtain ⟨⟨_, rfl | rfl⟩, bare⟩ := stops
    · rfl
    · exact absurd (one.symm.trans bare) Nat.one_ne_zero
  · intro same
    subst same
    exact ⟨⟨none.1, .inl rfl⟩, none.2⟩

private theorem lane_alone {row : Int} (isRow : row = 0 ∨ row = 1) (named : color.name ∉ [pathStart, pathEnd])
    (cells : ∀ cell, Colored laneFacts color cell ↔ cell ∈ [(row, 0), (row, 1)])
    (model : (directedLoop color true).Model laneFacts world) :
    world (.cell pathStart row 0) ∧ ¬ (directedLoop color true).Violated world := by
  have model' := model_freePath.mpr model
  have enters := draws_of_directed model' lane_enters (by decide)
  have leaves := draws_of_directed model' lane_leaves (by decide)
  have unmarked := (lane_fresh (List.forall_mem_singleton.mpr named)).unmarked
  have colored (cell : Int × Int) : Colored world color cell ↔ cell ∈ [(row, 0), (row, 1)] :=
    (Color.matches_of_model model' fun defines => named (defines_directed defines)).trans (cells cell)
  have entered : (InGrid 2 2 row 0 ∧ laneBack.degree row 0 = 0) ∧ laneBack.degree row 1 = 1 := by
    rcases isRow with rfl | rfl <;> decide
  have left : (InGrid 2 2 row 1 ∧ lane.degree row 1 = 0) ∧ lane.degree row 0 = 1 := by
    rcases isRow with rfl | rfl <;> decide
  have starts := stops_iff colored entered.1 entered.2
  have finishes := stops_iff (fun cell => (colored cell).trans (List.Perm.swap _ _ []).mem_iff) left.1 left.2
  refine ⟨(mark_iff unmarked model' start_mem enters (row, 0)).mpr ((starts _).mpr rfl), ?_⟩
  refine path_kept unmarked model enters leaves starts finishes (by simp) (fun cell isColored => ?_)
    (lane_sides enters leaves)
  rcases List.mem_pair.mp ((colored cell).mp isColored) with rfl | rfl
  · exact ⟨entered.1.2.trans_le (Nat.zero_le 1), left.2.le⟩
  · exact ⟨entered.2.le, left.1.2.trans_le (Nat.zero_le 1)⟩

private theorem lane_colored (row : Int) (name : String) (isColor : (row, name) ∈ [((0 : Int), "black"), (1, "white")])
    (cell : Int × Int) : Colored laneFacts (.positive name) cell ↔ cell ∈ [(row, 0), (row, 1)] := by
  rw [List.mem_pair] at isColor
  rcases isColor with same | same <;> cases same <;>
    simp [Colored, Color.Matches, laneFacts, laneList, Fact.cell, Fact.through, Relation.grid, Relation.enters,
      Relation.leaves, Prod.ext_iff]

private theorem lane_uncolored {name : String} (unused : ∀ fact ∈ laneList, fact.relation ≠ name)
    (named : name ∉ [pathStart, pathEnd]) (model : (directedLoop (.positive name) true).Model laneFacts world) :
    (∀ ends ∈ pathEnds, ∀ place, ¬ world ⟨ends.1, place⟩) ∧ ¬ Strays (.positive name) world := by
  have fresh : Fresh laneFacts [.positive name] := lane_fresh (List.forall_mem_singleton.mpr named)
  have model' := model_freePath.mpr model
  have unmarked (ends : String × String) (isEnd : ends ∈ pathEnds) (place : List Value) : ¬ world ⟨ends.1, place⟩ := by
    intro marked
    obtain ⟨binding, _, met⟩ := (fresh.marked_iff List.mem_cons_self model isEnd place).mp marked
    exact unused _ (holds_here.mp (met _ (List.mem_cons_of_mem _ List.mem_cons_self))) rfl
  refine ⟨unmarked, fun strays => ?_⟩
  rcases strays_iff.mp strays with ⟨ends, _, binding, met⟩ | broken | ⟨body, member, broken⟩
  · have colored : world ⟨name, [binding "R", binding "C"]⟩ :=
      holds_here.mp (met _ (List.mem_cons_of_mem _ List.mem_cons_self))
    exact unused _ ((model'.iff_given fun defines => named (defines_directed defines)).mp colored) rfl
  · obtain ⟨v, w, start, _⟩ := breaks_bothEnds.mp broken
    exact unmarked _ start_mem _ start
  · have enters := draws_of_directed model' lane_enters (by decide)
    have leaves := draws_of_directed model' lane_leaves (by decide)
    exact lane_sides enters leaves body member broken

/-- Alone, a color without any cell has no path, but it is kept together with a color that has one. -/
theorem loops_together_borrowed : ∃ first second both,
    (LoopRules.directed.program (.positive "black") true).Model laneFacts first ∧
    (LoopRules.directed.program (.positive "red") true).Model laneFacts second ∧
    (LoopRules.directed.program (.positive "red") true).Violated second ∧
    (LoopRules.directed.program (.positive "black") true ++
      LoopRules.directed.program (.positive "red") true).Model laneFacts both ∧
    ¬ (LoopRules.directed.program (.positive "black") true ++
      LoopRules.directed.program (.positive "red") true).Violated both := by
  obtain ⟨⟨first, ofBlack, _⟩, ⟨second, ofRed, _⟩, ⟨both, joint, _⟩, each⟩ :=
    loops_together .directed true (.positive "black") (.positive "red") laneFacts fun _ => lane_fresh (by decide)
  obtain ⟨union, _, exact⟩ := each first second both ofBlack ofRed joint
  obtain ⟨black_iff, red_iff, both_iff⟩ := exact ⟨rfl, rfl⟩
  have kept : ¬ (LoopRules.directed.program (.positive "black") true).Violated first :=
    (lane_alone (.inl rfl) (by decide) (lane_colored 0 "black" (by decide)) ofBlack).2
  obtain ⟨unmarked, steady⟩ := lane_uncolored (by decide) (by decide) ofRed
  refine ⟨first, second, both, ofBlack, ofRed, red_iff.mpr (.inr ⟨pathStart, by decide, ?_⟩), joint, ?_⟩
  · intro single
    obtain ⟨fact, isStart, marked⟩ := single.exists
    exact unmarked _ start_mem fact.values (isStart ▸ marked)
  · intro violated
    rcases both_iff.mp violated with (strays | strays) | ⟨marker, isMark, unsingle⟩
    · exact kept (black_iff.mpr (.inl strays))
    · exact steady strays
    · obtain ⟨ends, isEnd, rfl⟩ := List.mem_map.mp (show marker ∈ pathEnds.map Prod.fst from isMark)
      refine kept (black_iff.mpr (.inr ⟨ends.1, isMark, fun single => unsingle ?_⟩))
      refine (existsUnique_congr fun fact => and_congr_right fun isMarked => ?_).mp single
      rw [union, or_iff_left]
      exact fun marked => unmarked ends isEnd fact.values (isMarked ▸ marked)

/-- Either path is fine alone, but there are two starts of both together. -/
theorem lanes_clash : ∃ first second both,
    (directedLoop (.positive "black") true).Model laneFacts first ∧
    ¬ (directedLoop (.positive "black") true).Violated first ∧
    (directedLoop (.positive "white") true).Model laneFacts second ∧
    ¬ (directedLoop (.positive "white") true).Violated second ∧
    (directedLoop (.positive "black") true ++ directedLoop (.positive "white") true).Model laneFacts both ∧
    (directedLoop (.positive "black") true ++ directedLoop (.positive "white") true).Violated both := by
  have fresh : Fresh laneFacts [.positive "black", .positive "white"] := lane_fresh (by decide)
  have listed : Color.positive "black" ∈ [Color.positive "black", .positive "white"] := by decide
  have listed' : Color.positive "white" ∈ [Color.positive "black", .positive "white"] := by decide
  have flat := fresh.flat listed listed'
  obtain ⟨first, ofBlack, _⟩ := flat.left.existsUnique_model laneFacts
  obtain ⟨second, ofWhite, _⟩ := flat.right.existsUnique_model laneFacts
  obtain ⟨both, joint, _⟩ := flat.existsUnique_model laneFacts
  obtain rfl : both = first.join second := funext fun fact => propext (flat.append_iff joint ofBlack ofWhite fact)
  obtain ⟨start, kept⟩ := lane_alone (.inl rfl) (by decide) (lane_colored 0 "black" (by decide)) ofBlack
  obtain ⟨start', kept'⟩ := lane_alone (.inr rfl) (by decide) (lane_colored 1 "white" (by decide)) ofWhite
  refine ⟨first, second, _, ofBlack, kept, ofWhite, kept', joint, ?_⟩
  refine (fresh.violated_append_iff listed listed' ofBlack ofWhite joint).mpr (.inr ⟨pathStart, by decide, ?_⟩)
  intro single
  exact absurd (single.unique ⟨rfl, .inl start⟩ ⟨rfl, .inr start'⟩) (by decide)

end GridPuzzle.Template
