import Mathlib.Data.Finset.Max
import GridPuzzle.Proofs.Board.Classes
import GridPuzzle.Proofs.Rules.Extremum
import GridPuzzle.Proofs.Template.Source
import GridPuzzle.Proofs.Template.Spread

/-!
Connected colors. Whatever the size that is given for the grid, the label starts at just one cell of the
color if there is any, so that it leaves out a cell of the color exactly if the color is not connected.
-/
namespace GridPuzzle

/-- The distance from the middle of a grid of the given size, if there is one, then the row and the
column. -/
def startRank (size : Option (Coord × Coord)) (cell : Cell) : List Int :=
  size.elim [] (fun (rows, cols) => [((cell.row.val - rows.val.tdiv 2).natAbs +
    (cell.col.val - cols.val.tdiv 2).natAbs : Int)]) ++ [cell.row.val, cell.col.val]

theorem startRank_injective (size : Option (Coord × Coord)) : Function.Injective (startRank size) := by
  intro a b same
  cases size <;> simp only [startRank, Option.elim_none, Option.elim_some, List.nil_append, List.cons_append,
    List.cons.injEq, and_true] at same
  · exact Cell.ext same.1 same.2
  · exact Cell.ext same.2.1 same.2.2

namespace Board

variable {board : Board} {kind : Adjacency}

/-- No shaded cell has a lower rank. -/
def IsFirst (board : Board) (size : Option (Coord × Coord)) (cell : Cell) : Prop :=
  board.isShaded cell = true ∧ ∀ other, board.isShaded other = true → startRank size cell ≤ startRank size other

theorem exists_isFirst (size : Option (Coord × Coord)) {cell : Cell} (shaded : board.isShaded cell = true) :
    ∃ first, board.IsFirst size first := by
  have some : board.shadedCells.toFinset.Nonempty := ⟨cell, List.mem_toFinset.mpr (mem_shadedCells.mpr shaded)⟩
  obtain ⟨first, member, least⟩ := Finset.exists_min_image _ (startRank size) some
  refine ⟨first, mem_shadedCells.mp (List.mem_toFinset.mp member), fun other shaded => ?_⟩
  exact least other (List.mem_toFinset.mpr (mem_shadedCells.mpr shaded))

theorem IsFirst.unique {size : Option (Coord × Coord)} {first second : Cell} (isFirst : board.IsFirst size first)
    (isSecond : board.IsFirst size second) : first = second :=
  startRank_injective size (le_antisymm (isFirst.2 second isSecond.1) (isSecond.2 first isFirst.1))

open Template in
theorem covered_first_iff (fixed : kind.Fixed) (size : Option (Coord × Coord)) :
    (∃ cell, board.isShaded cell = true ∧ ¬ Covered board kind (board.IsFirst size) cell) ↔
      ¬ ∀ a b, board.isShaded a = true → board.isShaded b = true → board.Joined kind a b := by
  rw [← not_forall_not, not_iff_not]
  constructor
  · intro none a b shadedA shadedB
    obtain ⟨first, isFirst, toA⟩ := not_not.mp (not_and.mp (none a) shadedA)
    obtain ⟨second, isSecond, toB⟩ := not_not.mp (not_and.mp (none b) shadedB)
    rw [isSecond.unique isFirst] at toB
    exact (toA.symm fixed).trans toB
  · intro joined cell missed
    obtain ⟨first, isFirst⟩ := exists_isFirst size missed.1
    exact missed.2 ⟨first, isFirst, joined first cell isFirst.1 missed.1⟩

end Board

namespace Template

variable {board : Board} {color : Color} {kind : Adjacency} {size : Option (Coord × Coord)} {world : World}

def startTargets (size : Option (Coord × Coord)) : List String := size.elim [] (fun _ => ["D"]) ++ ["R", "C"]

def candidates (color : Color) (size : Option (Coord × Coord)) : Element :=
  ⟨size.elim [] (fun (rows, cols) => [.add (distance Place.other.row (.int (rows.val.tdiv 2)))
      (distance Place.other.col (.int (cols.val.tdiv 2)))]) ++ Place.other.args.map .term,
    [onGrid .other, color.on .other]⟩

def firstCandidate (color : Color) (size : Option (Coord × Coord)) : Literal :=
  .extremum (startTargets size) .least [candidates color size]

theorem connected_eq : connected color kind size =
    spreading (spreadLabel ["grid"] kind (some color)) color kind [(.here, [firstCandidate color size])] := by
  cases size <;> rfl

theorem candidates_stand {binding : Binding} {row col : Coord} (other : Place.Other binding row.val col.val) :
    List.Forall₂ (Expression.Stands binding) (candidates color size).tuple
      (Value.nums (startRank size ⟨row, col⟩)) := by
  have rows := Expression.stands_term other.stands.1
  have cols := Expression.stands_term other.stands.2
  have place : List.Forall₂ (Expression.Stands binding) (Place.other.args.map .term)
      [.num row.val, .num col.val] := .cons rows (.cons cols .nil)
  cases size with
  | none => exact place
  | some size =>
    have middle (number : Int) : Expression.Stands binding (.term (.int number)) (.num number) :=
      Expression.stands_term (Term.stands_int number)
    exact .cons (Expression.stands_add (Expression.stands_abs (Expression.stands_sub rows (middle _)))
      (Expression.stands_abs (Expression.stands_sub cols (middle _)))) place

theorem candidates_yields (shows : world.Shows board (some color)) {outer : List String}
    (free : "R1" ∉ outer ∧ "C1" ∉ outer) (binding : Binding) (tuple : List Value) :
    (candidates color size).Yields world outer binding tuple ↔
      ∃ cell, (board.colored color).isShaded cell = true ∧ tuple = Value.nums (startRank size cell) := by
  constructor
  · intro yields
    obtain ⟨inner, _, met, denoted⟩ := yields
    obtain ⟨row, col, covers, other⟩ := shows.onGrid_other.mp (met _ List.mem_cons_self)
    have matched := (holds_on color other.stands).mp (met _ (List.mem_cons_of_mem _ (List.mem_singleton_self _)))
    obtain ⟨cell, shaded, rfl, rfl⟩ := shows.shades_colored.mpr ⟨covers, matched⟩
    exact ⟨cell, shaded, (denoteAll_iff (candidates_stand other)).mp denoted⟩
  · intro candidate
    obtain ⟨cell, shaded, rfl⟩ := candidate
    let inner : Binding := fun name =>
      if name = "R1" then .num cell.row.val else if name = "C1" then .num cell.col.val else binding name
    have other : Place.Other inner cell.row.val cell.col.val := ⟨rfl, rfl⟩
    obtain ⟨covers, matched⟩ := shows.shades_colored.mp (Board.shades_cell.mpr shaded)
    refine ⟨inner, fun name isOuter => ?_, ?_, (denoteAll_iff (candidates_stand other)).mpr rfl⟩
    · have row : name ≠ "R1" := fun same => free.1 (same ▸ isOuter)
      have col : name ≠ "C1" := fun same => free.2 (same ▸ isOuter)
      simp only [inner, row, col, if_false]
    · refine List.forall_mem_cons.mpr ⟨?_, List.forall_mem_singleton.mpr ?_⟩
      · exact shows.onGrid_other.mpr ⟨_, _, covers, other⟩
      · exact (holds_on color other.stands).mpr matched

theorem firstCandidate_holds (shows : world.Shows board (some color)) {outer : List String}
    (free : "R1" ∉ outer ∧ "C1" ∉ outer) (binding : Binding) :
    (firstCandidate color size).Holds world outer binding ↔ ∃ cell, (board.colored color).IsFirst size cell ∧
      (startTargets size).map binding = Value.nums (startRank size cell) := by
  have bound : (startTargets size).map binding ≠ [.sup] := by
    cases size <;> simp [startTargets]
  have ranks : ∀ tuple, (∃ element ∈ [candidates color size], element.Yields world outer binding tuple) ↔
      ∃ cell, (board.colored color).isShaded cell = true ∧ tuple = Value.nums (startRank size cell) := by
    intro tuple
    rw [← candidates_yields shows free binding tuple]
    simp only [List.mem_singleton, exists_eq_left]
  rw [firstCandidate, Literal.Holds, Extremum.least_attains ranks bound]
  refine exists_congr fun cell => ?_
  rw [Board.IsFirst, and_assoc, and_congr_right_iff]
  exact fun _ => and_comm

theorem startTargets_denoted {binding : Binding} {cell : Cell}
    (bound : (startTargets size).map binding = Value.nums (startRank size cell)) :
    Place.Here binding cell.row.val cell.col.val := by
  cases size with
  | none => simpa [startTargets, startRank, Place.Here] using bound
  | some size =>
    simp only [startTargets, startRank, Option.elim_some, List.cons_append, List.nil_append, List.map_cons,
      List.map_nil, Value.nums_cons, Value.nums_nil, List.cons.injEq, and_true] at bound
    exact bound.2

theorem exists_startTargets (size : Option (Coord × Coord)) (cell : Cell) :
    ∃ binding : Binding, (startTargets size).map binding = Value.nums (startRank size cell) := by
  cases size with
  | none => exact ⟨fun name => if name = "R" then .num cell.row.val else .num cell.col.val, rfl⟩
  | some size =>
    obtain ⟨rows, cols⟩ := size
    exact ⟨fun name => if name = "D" then .num _ else
      if name = "R" then .num cell.row.val else .num cell.col.val, rfl⟩

theorem connected_starts (board : Board) (color : Color) (size : Option (Coord × Coord)) (label : String) :
    Starts board label color [(.here, [firstCandidate color size])] ((board.colored color).IsFirst size) := by
  refine ⟨?_, fun cell isFirst => isFirst.1, ?_⟩
  · simp only [List.forall_mem_singleton]
    intro relation looked
    cases color <;> simpa [firstCandidate, candidates, Literal.relations, Test.relations, onGrid, Color.on,
      Atom.cell, Color.name] using looked
  · intro world shows fact
    have free : "R1" ∉ Program.ruleScope (.cell label .here) [firstCandidate color size] ∧
        "C1" ∉ Program.ruleScope (.cell label .here) [firstCandidate color size] := by
      have scope : Program.ruleScope (.cell label .here) [firstCandidate color size] =
          ["R", "C"] ++ startTargets size := by simp [Program.ruleScope, firstCandidate, Literal.outer]; rfl
      cases size <;> simp [scope, startTargets]
    simp only [Fires, List.mem_singleton, exists_eq_left, forall_eq, firstCandidate_holds shows free,
      here_denotes]
    constructor
    · intro fired
      obtain ⟨binding, rfl, cell, isFirst, bound⟩ := fired
      have here := startTargets_denoted bound
      exact ⟨cell, isFirst, by rw [here.1, here.2]; rfl⟩
    · intro started
      obtain ⟨cell, isFirst, rfl⟩ := started
      obtain ⟨binding, bound⟩ := exists_startTargets size cell
      have here := startTargets_denoted bound
      exact ⟨binding, by rw [here.1, here.2]; rfl, cell, isFirst, bound⟩

theorem spreadFacts_feed (board : Board) (words : List String) (named : Named (some color) kind)
    (includeSelf : Bool) :
    Feeds (spreadFacts board (some color) kind includeSelf) board (spreadLabel words kind (some color)) color
      kind includeSelf := by
  refine ⟨spreadFacts_shows named, spreadFacts_neighbors named, fun fact given same => ?_, ?_⟩
  · rcases spreadFacts_relation given with isFixed | ⟨own, chosen, isColor⟩
    · exact spreadLabel_ne_fixed (same ▸ isFixed) rfl
    · cases chosen
      exact spreadLabel_ne_name (same.symm.trans isColor)
  · simp only [List.forall_mem_cons, List.not_mem_nil, false_imp_iff, implies_true, and_true]
    exact ⟨spreadLabel_ne_fixed (by simp [fixedRelations]), spreadLabel_ne_name,
      spreadLabel_ne_fixed (by simp [fixedRelations])⟩

/-- Under any size of the grid that is given, the rules have one model, and their constraint is broken in it
exactly if the cells of the color do not form one group. -/
theorem connected_agree (board : Board) (color : Color) (kind : Adjacency) (includeSelf : Bool)
    (size : Option (Coord × Coord)) (fixed : kind.Fixed) (named : Named (some color) kind) :
    (∃! world, (connected color kind size).Model (spreadFacts board (some color) kind includeSelf) world) ∧
      (board.Bounded → ∃ answer, (board.colored color).isConnected kind = .ok answer) ∧
      ∀ answer, (board.colored color).isConnected kind = .ok answer →
        ∀ world, (connected color kind size).Model (spreadFacts board (some color) kind includeSelf) world →
          ((connected color kind size).Violated world ↔ answer = false) := by
  have starts := connected_starts board color size (spreadLabel ["grid"] kind (some color))
  have feeds := spreadFacts_feed board ["grid"] named includeSelf
  rw [connected_eq]
  refine ⟨existsUnique_spreading starts feeds, fun bounded => ?_, fun answer decided world model => ?_⟩
  · obtain ⟨groups, grouped⟩ := (Board.bounded_tinted bounded (some color)).exists_components fixed
    exact Board.exists_isConnected grouped
  · rw [violated_spreading fixed starts feeds model, Board.covered_first_iff fixed size,
      ← Board.isConnected_iff fixed decided, Bool.not_eq_true]

/-- The two corners of a row of three cells, with a middle given that lies off the grid. -/
def cornersBoard : Board := .ofShading 1 3 Board.gateBoard.positive fun _ col => col ≠ 1

theorem connected_agree_corners : ∃ world,
    (connected (.positive "black") .side (some (.of (-3), .of 9))).Model
      (spreadFacts cornersBoard (some (.positive "black")) .side false) world ∧
    (connected (.positive "black") .side (some (.of (-3), .of 9))).Violated world := by
  have named : Named (some (.positive "black")) .side := by
    intro own chosen
    cases chosen
    decide
  have decided : cornersBoard.isConnected .side = .ok false := by decide +kernel
  obtain ⟨⟨world, model, _⟩, _, agree⟩ := connected_agree cornersBoard (.positive "black") .side false
    (some (.of (-3), .of 9)) Adjacency.fixed_side named
  exact ⟨world, model, (agree false decided world model).mpr rfl⟩

end Template

end GridPuzzle
