import GridPuzzle.Template.Piece
import GridPuzzle.Proofs.Board.Placement
import GridPuzzle.Proofs.Label
import GridPuzzle.Proofs.Polyomino.Span

/-!
The rules of one registered shape. In a world that knows a board, the body of the rule for an orientation
holds exactly where that orientation occurs on the board.
-/
namespace GridPuzzle.Template

variable {kind : Adjacency} {shape : Polyomino}

theorem touchingPairs_eq_ok {pairs linked : List (Cell × Cell)}
    (found : touchingPairs kind pairs = .ok linked) {pair : Cell × Cell} :
    pair ∈ linked ↔ pair ∈ pairs ∧ kind.Near pair.1 pair.2 := by
  induction pairs generalizing linked with
  | nil =>
    cases found
    simp
  | cons first rest ih =>
    obtain ⟨a, b⟩ := first
    obtain ⟨touches, decided, tail⟩ := Outcome.bind_eq_ok.mp found
    obtain ⟨others, foundRest, same⟩ := Outcome.bind_eq_ok.mp tail
    have near_iff : touches = true ↔ kind.Near a b := Adjacency.near_of_touches decided
    have rest_iff := ih foundRest
    cases Outcome.pure_eq_ok.mp same
    cases touches with
    | true =>
      have near := near_iff.mp rfl
      rw [if_pos rfl, List.mem_cons, rest_iff, List.mem_cons]
      apply Iff.intro
      · intro either
        rcases either with rfl | ⟨later, close⟩
        · exact ⟨.inl rfl, near⟩
        · exact ⟨.inr later, close⟩
      · intro holds
        exact holds.1.imp_right fun later => ⟨later, holds.2⟩
    | false =>
      have far : ¬ kind.Near a b := fun near => Bool.noConfusion (near_iff.mpr near)
      change pair ∈ others ↔ _
      rw [rest_iff, List.mem_cons]
      refine ⟨fun holds => ⟨.inr holds.1, holds.2⟩, fun holds => ⟨holds.1.resolve_left ?_, holds.2⟩⟩
      intro same
      rw [same] at holds
      exact far holds.2

theorem exists_touchingPairs {pairs : List (Cell × Cell)}
    (distances : ∀ pair ∈ pairs, ∃ answer, kind.touches pair.1 pair.2 = .ok answer) :
    ∃ linked, touchingPairs kind pairs = .ok linked := by
  induction pairs with
  | nil => exact ⟨[], rfl⟩
  | cons first rest ih =>
    obtain ⟨touches, decided⟩ := distances first List.mem_cons_self
    obtain ⟨others, found⟩ := ih fun pair member => distances pair (List.mem_cons_of_mem _ member)
    refine ⟨if touches then first :: others else others, ?_⟩
    rw [touchingPairs, Outcome.bind_of_ok decided, Outcome.bind_of_ok found]
    rfl

theorem mem_stepsOut {steps outer : List (Cell × Cell)} (found : stepsOut kind shape steps = .ok outer)
    {a next : Cell} : (a, next) ∈ outer ↔ ∃ offset, (a, offset) ∈ steps ∧ a.shift offset = .ok next ∧
      kind.Near a next ∧ shape.contains next = false := by
  induction steps generalizing outer with
  | nil =>
    cases found
    simp
  | cons first rest ih =>
    obtain ⟨cell, step⟩ := first
    obtain ⟨target, stepped, tail⟩ := Outcome.bind_eq_ok.mp found
    obtain ⟨touches, decided, tail⟩ := Outcome.bind_eq_ok.mp tail
    obtain ⟨others, foundRest, same⟩ := Outcome.bind_eq_ok.mp tail
    have near_iff : touches = true ↔ kind.Near cell target := Adjacency.near_of_touches decided
    have rest_iff := ih foundRest
    cases Outcome.pure_eq_ok.mp same
    have kept_iff : (touches && !shape.contains target) = true ↔
        kind.Near cell target ∧ shape.contains target = false := by
      rw [Bool.and_eq_true, near_iff, Bool.not_eq_true']
    have here : (∃ offset, (a, offset) ∈ (cell, step) :: rest ∧ a.shift offset = .ok next ∧
        kind.Near a next ∧ shape.contains next = false) ↔
          ((a, next) = (cell, target) ∧ (touches && !shape.contains target) = true) ∨
            (a, next) ∈ others := by
      rw [rest_iff, kept_iff]
      apply Iff.intro
      · intro leads
        obtain ⟨offset, member, moved, near, outside⟩ := leads
        rcases List.mem_cons.mp member with same | later
        · cases same
          rw [stepped, Except.ok.injEq] at moved
          subst moved
          exact .inl ⟨rfl, near, outside⟩
        · exact .inr ⟨offset, later, moved, near, outside⟩
      · intro either
        rcases either with ⟨same, near, outside⟩ | ⟨offset, later, holds⟩
        · cases same
          exact ⟨step, List.mem_cons_self, stepped, near, outside⟩
        · exact ⟨offset, List.mem_cons_of_mem _ later, holds⟩
    rw [here]
    by_cases kept : (touches && !shape.contains target) = true
    · rw [if_pos kept, List.mem_cons]
      simp [kept]
    · rw [if_neg kept]
      simp [kept]

theorem stepsOut_eq_ok {steps outer : List (Cell × Cell)} (normal : shape.Normal)
    (found : stepsOut kind shape steps = .ok outer) {a next : Cell} :
    (a, next) ∈ outer ↔ ∃ offset, (a, offset) ∈ steps ∧ a.shift offset = .ok next ∧ kind.Near a next ∧
      next ∉ shape.cells := by
  simp only [mem_stepsOut found, ← Bool.not_eq_true, normal.contains_iff]

theorem shift_of_stepsOut {steps outer : List (Cell × Cell)} (found : stepsOut kind shape steps = .ok outer) :
    ∀ step ∈ steps, ∃ next, step.1.shift step.2 = .ok next := by
  induction steps generalizing outer with
  | nil => exact fun _ none => absurd none List.not_mem_nil
  | cons first rest ih =>
    obtain ⟨next, stepped, tail⟩ := Outcome.bind_eq_ok.mp found
    obtain ⟨_, _, tail⟩ := Outcome.bind_eq_ok.mp tail
    obtain ⟨_, foundRest, _⟩ := Outcome.bind_eq_ok.mp tail
    exact List.forall_mem_cons.mpr ⟨⟨next, stepped⟩, ih foundRest⟩

theorem exists_stepsOut {steps : List (Cell × Cell)}
    (around : ∀ step ∈ steps, step.2 ∈ Cell.surroundings ∧ ∃ next, step.1.shift step.2 = .ok next) :
    ∃ outer, stepsOut kind shape steps = .ok outer := by
  induction steps with
  | nil => exact ⟨[], rfl⟩
  | cons first rest ih =>
    obtain ⟨cell, offset⟩ := first
    obtain ⟨offsetAround, next, stepped⟩ := around (cell, offset) List.mem_cons_self
    obtain ⟨others, found⟩ := ih fun step member => around step (List.mem_cons_of_mem _ member)
    have stepped : cell.shift offset = .ok next := stepped
    have moved := Cell.shift_eq_ok.mp stepped
    have small : offset.row.val.natAbs ≤ 1 ∧ offset.col.val.natAbs ≤ 1 :=
      Board.small_of_mem_surroundings offset offsetAround
    obtain ⟨touches, decided⟩ := Adjacency.exists_touches (a := cell) (b := next) kind (by omega)
    refine ⟨if touches && !shape.contains next then (cell, next) :: others else others, ?_⟩
    rw [stepsOut, Outcome.bind_of_ok stepped, Outcome.bind_of_ok decided, Outcome.bind_of_ok found]
    rfl

theorem exists_wayBack_iff {offset : Cell} : (∃ back, wayBack offset = .ok back) ↔
    offset.row.val ≠ -2147483648 ∧ offset.col.val ≠ -2147483648 := by
  have low := offset.row.inRange
  have left := offset.col.inRange
  simp only [wayBack, Outcome.bind_eq_ok, Outcome.pure_eq_ok, Coord.neg, Coord.checked_eq_ok_iff]
  constructor
  · rintro ⟨_, row, rows, col, cols, rfl⟩
    have rowFits := row.inRange
    have colFits := col.inRange
    omega
  · rintro ⟨rows, cols⟩
    exact ⟨_, ⟨-offset.row.val, by omega⟩, rfl, ⟨-offset.col.val, by omega⟩, rfl, rfl⟩

namespace Registration

def touchRule (entry : Registration) : Statement :=
  .rule ⟨entry.touchLabel, Place.here.args ++ Place.other.args⟩
    [.holds (entry.kind.joins .here .other), entry.color.on .other]

def keyed (entry : Registration) (relation : String) (place : Place) (index : Nat) : Atom :=
  entry.scope.keyed relation (place.args ++ [.int entry.id, .ofNat index])

@[simp] theorem keyed_relation (entry : Registration) (relation : String) (place : Place) (index : Nat) :
    (entry.keyed relation place index).relation = relation := by
  rw [keyed]
  cases entry.scope <;> rfl

def root (entry : Registration) (index : Nat) : Atom :=
  entry.keyed (detector entry.name entry.color entry.scope) .here index

@[simp] theorem root_relation (entry : Registration) (index : Nat) :
    (entry.root index).relation = detector entry.name entry.color entry.scope := keyed_relation _ _ _ _

def body (entry : Registration) (shape : Polyomino) (linked outer : List (Cell × Cell)) : List Literal :=
  entry.cellsMatch shape ++
    linked.map (fun pair => .holds (entry.kind.joins (Place.here.step pair.1) (Place.here.step pair.2))) ++
    outer.map fun pair =>
      .fails ⟨entry.touchLabel, (Place.here.step pair.1).args ++ (Place.here.step pair.2).args⟩

/-- The pairs of touching cells of a shape, and the steps out of it if it is not loose. -/
structure Surveyed (entry : Registration) (shape : Polyomino) (linked outer : List (Cell × Cell)) : Prop where
  linked_eq : touchingPairs entry.kind (Cell.pairs shape.cells) = .ok linked
  outer_eq : (if entry.loose then pure [] else stepsOut entry.kind shape (Cell.steps shape.cells)) = .ok outer

def States (entry : Registration) (shapes : List Polyomino) (statement : Statement) : Prop :=
  (entry.loose = false ∧ statement = entry.touchRule) ∨
    ∃ index shape linked outer, shapes[index]? = some shape ∧ entry.Surveyed shape linked outer ∧
      (statement = .rule (entry.root index) (entry.body shape linked outer) ∨
        ∃ cell ∈ shape.cells, statement = .rule (entry.keyed
          (covering entry.name entry.color entry.scope) (Place.here.step cell) index) [.holds (entry.root index)])

variable {entry : Registration}

theorem orientationRules_eq (index : Nat) (shape : Polyomino) :
    entry.orientationRules index shape = (touchingPairs entry.kind (Cell.pairs shape.cells) >>= fun linked =>
      (if entry.loose then pure [] else stepsOut entry.kind shape (Cell.steps shape.cells)) >>= fun outer =>
        outer.mapM (fun step => wayBack step.2) >>= fun _ =>
        pure (.rule (entry.root index) (entry.body shape linked outer) :: shape.cells.map fun cell =>
          .rule (entry.keyed (covering entry.name entry.color entry.scope) (Place.here.step cell) index)
            [.holds (entry.root index)])) := by
  unfold orientationRules
  cases entry.loose <;> rfl

private theorem mem_orientationRules {index : Nat} {rules : List Statement}
    (built : entry.orientationRules index shape = .ok rules) : ∃ linked outer,
      entry.Surveyed shape linked outer ∧ ∀ statement, statement ∈ rules ↔
        statement = .rule (entry.root index) (entry.body shape linked outer) ∨
          ∃ cell ∈ shape.cells, statement = .rule (entry.keyed
            (covering entry.name entry.color entry.scope) (Place.here.step cell) index)
              [.holds (entry.root index)] := by
  rw [orientationRules_eq] at built
  obtain ⟨linked, linked_eq, tail⟩ := Outcome.bind_eq_ok.mp built
  obtain ⟨outer, outer_eq, tail⟩ := Outcome.bind_eq_ok.mp tail
  obtain ⟨_, _, same⟩ := Outcome.bind_eq_ok.mp tail
  refine ⟨linked, outer, ⟨linked_eq, outer_eq⟩, fun statement => ?_⟩
  cases Outcome.pure_eq_ok.mp same
  simp only [List.mem_cons, List.mem_map, @eq_comm _ statement]

theorem exists_surveyed
    (distances : ∀ pair ∈ Cell.pairs shape.cells, ∃ answer, entry.kind.touches pair.1 pair.2 = .ok answer)
    (around : entry.loose = false → ∀ step ∈ Cell.steps shape.cells, ∃ next,
      step.1.shift step.2 = .ok next) :
    ∃ linked outer, entry.Surveyed shape linked outer := by
  obtain ⟨linked, linked_eq⟩ := exists_touchingPairs distances
  obtain ⟨outer, outer_eq⟩ : ∃ outer, (if entry.loose then pure [] else
      stepsOut entry.kind shape (Cell.steps shape.cells)) = .ok outer := by
    cases strict : entry.loose with
    | true => exact ⟨[], rfl⟩
    | false =>
      apply exists_stepsOut
      intro step member
      exact ⟨(Cell.mem_steps.mp member).2, around strict step member⟩
  exact ⟨linked, outer, linked_eq, outer_eq⟩

theorem Surveyed.mem_outer {linked outer : List (Cell × Cell)} (surveyed : entry.Surveyed shape linked outer)
    {pair : Cell × Cell} (member : pair ∈ outer) : entry.loose = false ∧
      ∃ offset, (pair.1, offset) ∈ Cell.steps shape.cells ∧ pair.1.shift offset = .ok pair.2 := by
  have outer_eq := surveyed.outer_eq
  cases strict : entry.loose with
  | true =>
    rw [strict, if_pos rfl] at outer_eq
    cases outer_eq
    cases member
  | false =>
    rw [strict, if_neg Bool.false_ne_true] at outer_eq
    obtain ⟨offset, listed, stepped, _⟩ := (mem_stepsOut outer_eq).mp member
    exact ⟨rfl, offset, listed, stepped⟩

theorem mem_rules {shapes : List Polyomino} {program : Program} (built : entry.rules shapes = .ok program)
    (statement : Statement) : statement ∈ program.statements ↔ entry.States shapes statement := by
  obtain ⟨oriented, found, same⟩ := Outcome.bind_eq_ok.mp built
  have mapped := Outcome.mapM_eq_ok.mp found
  clear built
  cases Outcome.pure_eq_ok.mp same
  change statement ∈ _ ++ oriented.flatten ↔ _
  rw [List.mem_append, List.mem_flatten]
  refine or_congr ?_ ⟨fun listed => ?_, fun states => ?_⟩
  · cases entry.loose <;> simp [touchRule]
  · obtain ⟨rules, member, inRules⟩ := listed
    obtain ⟨⟨shape, index⟩, numbered, ended⟩ := Outcome.mem_of_forall₂ mapped member
    obtain ⟨linked, outer, surveyed, rules_iff⟩ := mem_orientationRules ended
    exact ⟨index, shape, linked, outer, List.mem_zipIdx_iff_getElem?.mp numbered, surveyed,
      (rules_iff statement).mp inRules⟩
  · obtain ⟨index, shape, linked, outer, numbered, surveyed, isRule⟩ := states
    obtain ⟨rules, member, ended⟩ := Outcome.mem_of_forall₂ mapped.flip
      (List.mk_mem_zipIdx_iff_getElem?.mpr numbered)
    obtain ⟨linked', outer', surveyed', rules_iff⟩ := mem_orientationRules ended
    have sameLinked := surveyed.linked_eq.symm.trans surveyed'.linked_eq
    have sameOuter := surveyed.outer_eq.symm.trans surveyed'.outer_eq
    cases sameLinked
    cases sameOuter
    exact ⟨rules, member, (rules_iff statement).mpr isRule⟩

theorem surveyed_of_rules {shapes : List Polyomino} {program : Program} (built : entry.rules shapes = .ok program)
    {index : Nat} (numbered : shapes[index]? = some shape) :
    ∃ linked outer, entry.Surveyed shape linked outer := by
  obtain ⟨oriented, found, _⟩ := Outcome.bind_eq_ok.mp built
  obtain ⟨rules, _, ended⟩ := Outcome.mem_of_forall₂ (Outcome.mapM_eq_ok.mp found).flip
    (List.mk_mem_zipIdx_iff_getElem?.mpr numbered)
  obtain ⟨linked, outer, surveyed, _⟩ := mem_orientationRules ended
  exact ⟨linked, outer, surveyed⟩

/-- Neither the color nor the scope takes part in whether rules can be built. -/
theorem rules_refusedAlike {entry other : Registration} (kind : entry.kind = other.kind)
    (loose : entry.loose = other.loose) (shapes : List Polyomino) :
    Outcome.RefusedAlike (entry.rules shapes) (other.rules shapes) := by
  refine .bind (.mapM _ fun numbered _ => ?_) fun _ _ _ _ => .of_ok
  change Outcome.RefusedAlike (entry.orientationRules numbered.2 numbered.1)
    (other.orientationRules numbered.2 numbered.1)
  rw [orientationRules_eq, orientationRules_eq, kind, loose]
  refine (Outcome.RefusedAlike.refl _).bind fun _ _ first first' => ?_
  cases first.symm.trans first'
  refine (Outcome.RefusedAlike.refl _).bind fun _ _ outer outer' => ?_
  cases outer.symm.trans outer'
  exact (Outcome.RefusedAlike.refl _).bind fun _ _ _ _ => .of_ok

/-- Rules can be built if the steps out of all shapes lead to coordinates, and back as well. -/
theorem exists_rules (entry : Registration) {shapes : List Polyomino}
    (distances : ∀ shape ∈ shapes, ∀ pair ∈ Cell.pairs shape.cells, ∃ answer,
      entry.kind.touches pair.1 pair.2 = .ok answer)
    (around : entry.loose = false → ∀ shape ∈ shapes, ∀ step ∈ Cell.steps shape.cells, ∃ next,
      step.1.shift step.2 = .ok next ∧ ∃ back, wayBack next = .ok back) :
    ∃ program, entry.rules shapes = .ok program := by
  have each : ∀ numbered ∈ shapes.zipIdx, ∃ rules,
      entry.orientationRules numbered.2 numbered.1 = .ok rules := by
    intro numbered member
    have inside := List.fst_mem_of_mem_zipIdx member
    obtain ⟨linked, outer, surveyed⟩ := exists_surveyed (distances _ inside) fun strict step member =>
      (around strict _ inside step member).imp fun _ => And.left
    obtain ⟨_, back⟩ : ∃ back, outer.mapM (fun step => wayBack step.2) = .ok back :=
      Outcome.exists_mapM_ok fun pair member => by
        obtain ⟨strict, offset, listed, stepped⟩ := surveyed.mem_outer member
        obtain ⟨next, stepped', back⟩ := around strict _ inside _ listed
        cases stepped.symm.trans stepped'
        exact back
    rw [orientationRules_eq, Outcome.bind_of_ok surveyed.linked_eq, Outcome.bind_of_ok surveyed.outer_eq,
      Outcome.bind_of_ok back]
    exact ⟨_, rfl⟩
  obtain ⟨oriented, built⟩ := Outcome.exists_mapM_ok each
  exact ⟨_, Outcome.bind_of_ok built _⟩

/-- The world knows the grid, the color and the neighbors of a board, and where the label stands. -/
structure Knows (entry : Registration) (world : World) (board : Board) (includeSelf : Bool) : Prop where
  shows : world.Shows board (some entry.color)
  neighbors : ∀ row col row' col', world (.pair entry.kind.relation row col row' col') ↔
    board.Adjoins entry.kind row col row' col' ∨
      includeSelf = true ∧ (row = row' ∧ col = col') ∧ board.Covers row col
  touches : entry.loose = false → ∀ row col row' col', world (.pair entry.touchLabel row col row' col') ↔
    world (.pair entry.kind.relation row col row' col') ∧ entry.color.Matches world row' col'

section Body

variable {world : World} {board : Board} {includeSelf : Bool} {binding : Binding} {row col : Int}
  {scope : List String} (knows : entry.Knows world board includeSelf) (here : Place.Here binding row col)
include knows

/-- Two cells that touch by their places are not one cell, so whether a cell joins itself is no matter. -/
private theorem joins_iff {a b : Cell} (near : entry.kind.Near a b) :
    world (.pair entry.kind.relation (row + a.row.val) (col + a.col.val) (row + b.row.val)
      (col + b.col.val)) ↔
      board.Adjoins entry.kind (row + a.row.val) (col + a.col.val) (row + b.row.val) (col + b.col.val) := by
  rw [knows.neighbors, or_iff_left]
  intro same
  obtain ⟨_, ⟨rows, cols⟩, _⟩ := same
  generalize entry.kind = kind at near
  cases kind <;> simp only [Adjacency.Near] at near <;> omega

include here

private theorem cellsMatch_holds (shape : Polyomino) (within : ∀ cell ∈ shape.cells,
      (entry.scope.covers (Place.here.step cell)).Holds world binding →
        board.Covers (row + cell.row.val) (col + cell.col.val)) :
    (∀ literal ∈ entry.cellsMatch shape, literal.Holds world scope binding) ↔
      (∀ cell ∈ shape.cells, (entry.scope.covers (Place.here.step cell)).Holds world binding) ∧
        ∀ cell ∈ shape.cells,
          (board.colored entry.color).Shades (row + cell.row.val) (col + cell.col.val) := by
  have each (cell : Cell) : (∀ literal ∈ [Literal.test (entry.scope.covers (Place.here.step cell)),
      .test (entry.color.on (Place.here.step cell))], literal.Holds world scope binding) ↔
        (entry.scope.covers (Place.here.step cell)).Holds world binding ∧
          entry.color.Matches world (row + cell.row.val) (col + cell.col.val) := by
    rw [List.forall_mem_cons, List.forall_mem_singleton, ← holds_on entry.color (here.step_stands cell)]
    exact Iff.rfl
  rw [cellsMatch, List.forall_mem_flatMap]
  simp only [each, knows.shows.shades_colored]
  refine ⟨fun both => ⟨fun cell member => (both cell member).1, fun cell member => ?_⟩, fun parts cell member => ?_⟩
  · exact ⟨within cell member (both cell member).1, (both cell member).2⟩
  · exact ⟨parts.1 cell member, (parts.2 cell member).2⟩

private theorem linked_holds {pairs linked : List (Cell × Cell)}
    (found : touchingPairs entry.kind pairs = .ok linked) :
    (∀ literal ∈ linked.map fun pair =>
        Literal.holds (entry.kind.joins (Place.here.step pair.1) (Place.here.step pair.2)),
      literal.Holds world scope binding) ↔
    ∀ pair ∈ pairs, entry.kind.Near pair.1 pair.2 → board.Adjoins entry.kind (row + pair.1.row.val)
      (col + pair.1.col.val) (row + pair.2.row.val) (col + pair.2.col.val) := by
  rw [List.forall_mem_map]
  have holds (pair : Cell × Cell) : (Literal.holds (entry.kind.joins (Place.here.step pair.1)
      (Place.here.step pair.2))).Holds world scope binding ↔ world (.pair entry.kind.relation
        (row + pair.1.row.val) (col + pair.1.col.val) (row + pair.2.row.val) (col + pair.2.col.val)) :=
    holds_pair (here.step_stands pair.1) (here.step_stands pair.2)
  simp only [holds, touchingPairs_eq_ok found, and_imp]
  refine forall_congr' fun pair => imp_congr_right fun _ => forall_congr' fun near => ?_
  exact joins_iff knows near

private theorem outer_holds (fixed : entry.kind.Fixed) (normal : shape.Normal) (strict : entry.loose = false)
    {outer : List (Cell × Cell)} (found : stepsOut entry.kind shape (Cell.steps shape.cells) = .ok outer) :
    (∀ literal ∈ outer.map fun pair => Literal.fails
        ⟨entry.touchLabel, (Place.here.step pair.1).args ++ (Place.here.step pair.2).args⟩,
      literal.Holds world scope binding) ↔
    ∀ step ∈ Cell.steps shape.cells,
      ¬ shape.Has (step.1.row.val + step.2.row.val, step.1.col.val + step.2.col.val) →
      board.Adjoins entry.kind (row + step.1.row.val) (col + step.1.col.val)
        (row + (step.1.row.val + step.2.row.val)) (col + (step.1.col.val + step.2.col.val)) →
      ¬ (board.colored entry.color).Shades (row + (step.1.row.val + step.2.row.val))
        (col + (step.1.col.val + step.2.col.val)) := by
  rw [List.forall_mem_map]
  have fails (pair : Cell × Cell) : (Literal.fails ⟨entry.touchLabel,
      (Place.here.step pair.1).args ++ (Place.here.step pair.2).args⟩).Holds world scope binding ↔
        ¬ world (.pair entry.touchLabel (row + pair.1.row.val) (col + pair.1.col.val)
          (row + pair.2.row.val) (col + pair.2.col.val)) :=
    fails_pair (here.step_stands pair.1) (here.step_stands pair.2)
  simp only [fails, knows.touches strict]
  have has_iff {cell offset next : Cell} (stepped : cell.shift offset = .ok next) :
      shape.Has (cell.row.val + offset.row.val, cell.col.val + offset.col.val) ↔ next ∈ shape.cells := by
    have moved := Cell.shift_eq_ok.mp stepped
    rw [← moved.1, ← moved.2]
    refine ⟨fun has => ?_, fun member => ⟨next, member, rfl⟩⟩
    obtain ⟨other, member, same⟩ := has
    exact Cell.point_injective same ▸ member
  apply Iff.intro
  · intro apart step member outside adjoins shades
    obtain ⟨cell, offset⟩ := step
    obtain ⟨next, stepped⟩ : ∃ next, cell.shift offset = .ok next := shift_of_stepsOut found _ member
    have moved := Cell.shift_eq_ok.mp stepped
    rw [has_iff stepped] at outside
    rw [← moved.1, ← moved.2] at adjoins shades
    have near := adjoins.near fixed
    have listed := (stepsOut_eq_ok normal found).mpr ⟨offset, member, stepped, near, outside⟩
    have has := (knows.shows.shades_colored.mp shades).2
    exact apart (cell, next) listed ⟨(joins_iff knows near).mpr adjoins, has⟩
  · intro alone pair listed touched
    obtain ⟨cell, next⟩ := pair
    obtain ⟨offset, member, stepped, near, outside⟩ := (stepsOut_eq_ok normal found).mp listed
    have moved := Cell.shift_eq_ok.mp stepped
    have adjoins := (joins_iff knows near).mp touched.1
    have shades := knows.shows.shades_colored.mpr ⟨adjoins.covers fixed, touched.2⟩
    rw [← has_iff stepped] at outside
    rw [moved.1, moved.2] at adjoins shades
    exact alone (cell, offset) member outside adjoins shades

/-- The body holds at a cell exactly if the shape occurs there with all its cells in the scope. -/
theorem body_holds_in (fixed : entry.kind.Fixed) (normal : shape.Normal) (within : ∀ cell ∈ shape.cells,
      (entry.scope.covers (Place.here.step cell)).Holds world binding →
        board.Covers (row + cell.row.val) (col + cell.col.val))
    {linked outer : List (Cell × Cell)} (surveyed : entry.Surveyed shape linked outer) :
    (∀ literal ∈ entry.body shape linked outer, literal.Holds world scope binding) ↔
      (∀ cell ∈ shape.cells, (entry.scope.covers (Place.here.step cell)).Holds world binding) ∧
        (board.colored entry.color).Occurs entry.kind entry.loose row col shape := by
  have adjoins_iff {r c r' c' : Int} : (board.colored entry.color).Adjoins entry.kind r c r' c' ↔
      board.Adjoins entry.kind r c r' c' := Board.adjoins_tinted (some entry.color)
  rw [body, List.forall_mem_append, List.forall_mem_append, cellsMatch_holds knows here shape within,
    linked_holds knows here surveyed.linked_eq, and_assoc, and_assoc, and_congr_right_iff]
  intro _
  have outer_eq := surveyed.outer_eq
  cases strict : entry.loose with
  | true =>
    rw [strict, if_pos rfl] at outer_eq
    cases outer_eq
    refine ⟨fun holds => ⟨holds.1, ?_, nofun⟩, fun occurs => ⟨occurs.shaded, ?_, by simp⟩⟩
    · exact fun pair member near => adjoins_iff.mpr (holds.2.1 pair member near)
    · exact fun pair member near => adjoins_iff.mp (occurs.joined pair member near)
  | false =>
    rw [strict, if_neg Bool.false_ne_true] at outer_eq
    rw [outer_holds knows here fixed normal strict outer_eq]
    refine ⟨fun holds => ⟨holds.1, ?_, fun _ => ?_⟩, fun occurs => ⟨occurs.shaded, ?_, ?_⟩⟩
    · exact fun pair member near => adjoins_iff.mpr (holds.2.1 pair member near)
    · exact fun step member outside adjoins => holds.2.2 step member outside (adjoins_iff.mp adjoins)
    · exact fun pair member near => adjoins_iff.mp (occurs.joined pair member near)
    · exact fun step member outside adjoins => occurs.alone rfl step member outside (adjoins_iff.mpr adjoins)

theorem body_holds (fixed : entry.kind.Fixed) (grid : entry.scope = .grid) (normal : shape.Normal)
    {linked outer : List (Cell × Cell)} (surveyed : entry.Surveyed shape linked outer) :
    (∀ literal ∈ entry.body shape linked outer, literal.Holds world scope binding) ↔
      (board.colored entry.color).Occurs entry.kind entry.loose row col shape := by
  have covers (cell : Cell) : (entry.scope.covers (Place.here.step cell)).Holds world binding ↔
      board.Covers (row + cell.row.val) (col + cell.col.val) := by
    rw [grid]
    exact (holds_cell (here.step_stands cell)).trans knows.shows.grid_cell
  rw [body_holds_in knows here fixed normal (fun cell _ => (covers cell).mp) surveyed]
  refine and_iff_right_of_imp fun occurs cell member => (covers cell).mpr ?_
  exact (knows.shows.shades_colored.mp (occurs.shaded cell member)).1

end Body

end Registration

end GridPuzzle.Template
