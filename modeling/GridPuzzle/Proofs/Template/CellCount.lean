import GridPuzzle.Proofs.Rules.Compose
import GridPuzzle.Proofs.Rules.Count
import GridPuzzle.Template.Shading

/-!
Counts of cells. The tuples of a count are the row and the column of each cell of the color, on the grid or in an
area, whatever values these are. So the constraint is broken exactly if the number of such cells misses the target.
-/
namespace GridPuzzle

namespace World

def gridCells (world : World) : Set (Value × Value) :=
  {cell | world ⟨Relation.grid, [cell.1, cell.2]⟩}

def areaCells (world : World) (area : Value) : Set (Value × Value) :=
  {cell | world ⟨Relation.area, [area, cell.1, cell.2]⟩}

/-- The places of a color, on the grid or not. -/
def cellsOf (world : World) : Color → Set (Value × Value)
  | .positive name => {cell | world ⟨name, [cell.1, cell.2]⟩}
  | .negated name => {cell | ¬ world ⟨name, [cell.1, cell.2]⟩}

end World

namespace Template

variable {world : World} {binding inner : Binding} {outer : List String} {color : Color} {target : Target}
  {cells : Test} {area : Term} {value : Value} {items : Set (Value × Value)}

private theorem onGrid_iff :
    (onGrid .here).Holds world inner ↔ (inner "R", inner "C") ∈ world.gridCells :=
  holds_here

private theorem inArea_iff (stands : area.Stands inner value) :
    (inArea area .here).Holds world inner ↔ (inner "R", inner "C") ∈ world.areaCells value :=
  Test.holds_iff (.cons stands (here_args inner))

private theorem on_iff : (color.on .here).Holds world inner ↔ (inner "R", inner "C") ∈ world.cellsOf color := by
  cases color with
  | positive name => exact holds_here
  | negated name => exact Test.fails_iff (here_args inner)

/-- The area has a cell, whichever it is. -/
private theorem anyCell_iff (stands : area.Stands inner value) :
    (inArea area ⟨.anon, .anon⟩).Holds world inner ↔ (world.areaCells value).Nonempty := by
  have denotes (fact : Fact) : Atom.Denotes inner ⟨Relation.area, area :: Place.args ⟨.anon, .anon⟩⟩ fact ↔
      ∃ row col, fact = ⟨Relation.area, [value, row, col]⟩ := by
    have anything (other : Value) : Term.anon.Denotes inner other := trivial
    obtain ⟨own, values⟩ := fact
    simp [Atom.Denotes, Place.args, stands _, anything]
  constructor
  · intro holds
    obtain ⟨fact, denoted, inWorld⟩ := holds
    obtain ⟨row, col, rfl⟩ := (denotes fact).mp denoted
    exact ⟨(row, col), inWorld⟩
  · intro filled
    obtain ⟨cell, inArea⟩ := filled
    exact ⟨_, (denotes _).mpr ⟨cell.1, cell.2, rfl⟩, inArea⟩

/-- What a count ranges over: the cells of the color that pass a test. -/
def countedCells (cells : Test) (color : Color) : Element :=
  ⟨Place.here.args.map .term, [cells, color.on .here]⟩

def cellTuple (cell : Value × Value) : List Value := [cell.1, cell.2]

private theorem cellTuple_injective : Function.Injective cellTuple := by
  intro first second same
  simp only [cellTuple, List.cons.injEq, and_true] at same
  exact Prod.ext same.1 same.2

/-- The rows and the columns are free, so that each cell that passes the test has a tuple. -/
private theorem yields_cells (free : "R" ∉ outer ∧ "C" ∉ outer)
    (tested : ∀ inner : Binding, (∀ name ∈ outer, inner name = binding name) →
      (cells.Holds world inner ↔ (inner "R", inner "C") ∈ items)) (tuple : List Value) :
    (countedCells cells color).Yields world outer binding tuple ↔
      ∃ cell ∈ items ∩ world.cellsOf color, tuple = cellTuple cell := by
  have passed (inner : Binding) : (∀ condition ∈ [cells, color.on .here], condition.Holds world inner) ↔
      cells.Holds world inner ∧ (inner "R", inner "C") ∈ world.cellsOf color := by
    rw [List.forall_mem_cons, List.forall_mem_singleton, on_iff]
  have tupled (inner : Binding) : DenoteAll (Expression.Denotes inner) (Place.here.args.map .term) tuple ↔
      tuple = cellTuple (inner "R", inner "C") :=
    denoteAll_iff (List.forall₂_map_left_iff.mpr (here_args inner))
  simp only [Element.Yields, countedCells, passed, tupled]
  constructor
  · intro yields
    obtain ⟨inner, agrees, ⟨passes, colored⟩, same⟩ := yields
    exact ⟨_, ⟨(tested inner agrees).mp passes, colored⟩, same⟩
  · intro listed
    obtain ⟨⟨row, col⟩, ⟨passes, colored⟩, same⟩ := listed
    let inner : Binding := fun name => if name = "R" then row else if name = "C" then col else binding name
    have agrees : ∀ name ∈ outer, inner name = binding name := by
      intro name member
      have notRow : name ≠ "R" := fun isRow => free.1 (isRow ▸ member)
      have notCol : name ≠ "C" := fun isCol => free.2 (isCol ▸ member)
      exact (if_neg notRow).trans (if_neg notCol)
    exact ⟨inner, agrees, ⟨(tested inner agrees).mpr passes, colored⟩, same⟩

/-- A count in a constraint holds exactly if its target rejects the number of the cells. -/
private theorem unmet_holds (free : "R" ∉ outer ∧ "C" ∉ outer)
    (tested : ∀ inner : Binding, (∀ name ∈ outer, inner name = binding name) →
      (cells.Holds world inner ↔ (inner "R", inner "C") ∈ items)) :
    (unmet target (countedCells cells color)).Holds world outer binding ↔
      target.Rejects (items ∩ world.cellsOf color) := by
  rw [unmet, Literal.count_holds_iff_ncard cellTuple_injective (yields_cells free tested),
    ← Target.accepts_eq_false_iff, Target.Rejects]

private theorem breaks_misses (tested : ∀ inner, cells.Holds world inner ↔ (inner "R", inner "C") ∈ items) :
    Program.Breaks world [unmet target (countedCells cells color)] ↔ target.Rejects (items ∩ world.cellsOf color) := by
  have missed (binding : Binding) : (∀ literal ∈ [unmet target (countedCells cells color)],
      literal.Holds world [] binding) ↔ target.Rejects (items ∩ world.cellsOf color) := by
    rw [List.forall_mem_singleton]
    exact unmet_holds (by simp) fun inner _ => tested inner
  constructor
  · intro broken
    obtain ⟨binding, holds⟩ := broken
    exact (missed binding).mp holds
  · intro rejected
    exact ⟨fun _ => .inf, (missed _).mpr rejected⟩

/-- The area is bound outside of the count, by a cell of its own. -/
private theorem breaks_misses_area :
    Program.Breaks world [inArea Scope.areaVariable ⟨.anon, .anon⟩,
        unmet target (countedCells (inArea Scope.areaVariable .here) color)] ↔
      ∃ area, (world.areaCells area).Nonempty ∧ target.Rejects (world.areaCells area ∩ world.cellsOf color) := by
  have met (binding : Binding) :
      (inArea Scope.areaVariable ⟨.anon, .anon⟩).Holds world binding ↔ (world.areaCells (binding "A")).Nonempty :=
    anyCell_iff (Term.stands_var "A")
  have missed (binding : Binding) :
      (unmet target (countedCells (inArea Scope.areaVariable .here) color)).Holds world ["A"] binding ↔
        target.Rejects (world.areaCells (binding "A") ∩ world.cellsOf color) := by
    refine unmet_holds (by decide) fun inner agrees => ?_
    rw [← agrees "A" (List.mem_singleton_self _)]
    exact inArea_iff (Term.stands_var "A")
  constructor
  · intro broken
    obtain ⟨binding, holds⟩ := broken
    obtain ⟨filled, rejected⟩ := List.forall_mem_cons.mp holds
    exact ⟨binding "A", (met binding).mp filled, (missed binding).mp (List.forall_mem_singleton.mp rejected)⟩
  · intro found
    obtain ⟨area, filled, rejected⟩ := found
    refine ⟨fun _ => area, List.forall_mem_cons.mpr ⟨(met _).mpr filled, List.forall_mem_singleton.mpr ?_⟩⟩
    exact (missed _).mpr rejected

/-- What breaks the constraint of a count. If the area is left open, each area that has a cell counts on its own. -/
def CountMissed (given : World) (target : Target) (color : Color) : Scope → Option Int → Prop
  | .grid, _ => target.Rejects (given.gridCells ∩ given.cellsOf color)
  | .area, some id => target.Rejects (given.areaCells (.num id) ∩ given.cellsOf color)
  | .area, none => ∃ area, (given.areaCells area).Nonempty ∧
      target.Rejects (given.areaCells area ∩ given.cellsOf color)

private theorem exists_constraint (target : Target) (color : Color) (scope : Scope) (id : Option Int) :
    ∃ body, count target color scope id = ⟨[.constraint body]⟩ ∧
      ∀ given, Program.Breaks given body ↔ CountMissed given target color scope id :=
  match scope, id with
  | .grid, _ => ⟨_, rfl, fun _ => breaks_misses fun _ => onGrid_iff⟩
  | .area, some _ => ⟨_, rfl, fun _ => breaks_misses fun _ => inArea_iff (Term.stands_int _)⟩
  | .area, none => ⟨_, rfl, fun _ => breaks_misses_area⟩

/-- With any given facts a count has one model, which is those facts. In it the constraint is broken exactly if the
target rejects the number of cells of the color: of those on the grid, of those in the area with the number, which
are none if there is no such area, or of those in some area that has a cell. -/
theorem count_agree (given : World) (target : Target) (color : Color) (scope : Scope) (id : Option Int) :
    (∀ world, (count target color scope id).Model given world ↔ world = given) ∧
      ((count target color scope id).Violated given ↔ CountMissed given target color scope id) ∧
      (∀ value number, (Target.exactly value).accepts number = true ↔ number = value) ∧
      ∀ comparator value number, (Target.compare comparator value).accepts number = true ↔
        comparator.Compares number value := by
  obtain ⟨body, built, breaks⟩ := exists_constraint target color scope id
  have only : ∀ statement ∈ (count target color scope id).statements, ∃ body, statement = .constraint body := by
    rw [built, List.forall_mem_singleton]
    exact ⟨body, rfl⟩
  refine ⟨fun world => Program.model_iff_of_constraints only, ?_, fun value number => Target.accepts_iff _ _,
    fun comparator value number => (Target.accepts_iff _ _).trans Comparator.holds_iff⟩
  rw [built, Program.violated_constraint]
  exact breaks given

end Template

end GridPuzzle
