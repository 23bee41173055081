import GridPuzzle.Proofs.Board.Rays
import GridPuzzle.Proofs.Template.Source

/-!
What a source lights. The label spreads to any neighbor that stays in the row or column of its source, which
marks just the cells on the rays that the board draws from it.
-/
namespace GridPuzzle.Template

variable {board : Board} {color : Color} {kind : Adjacency} {includeSelf : Bool} {source : Cell} {world : World}

def lightLabel (color : Color) (kind : Adjacency) : String := spreadLabel ["bulb", "src"] kind (some color)

/-- The cell that a rule is about is in the row or the column of the source. -/
def inLine (source : Cell) : Test :=
  .compare .eq (.mul (.sub Place.here.row (Place.ofCell source).row) (.sub Place.here.col (Place.ofCell source).col))
    (Term.int 0)

theorem inLine_holds {binding : Binding} {row col : Int} (here : Place.Here binding row col) :
    (inLine source).Holds world binding ↔ row = source.row.val ∨ col = source.col.val := by
  have start : (Place.ofCell source).Stands binding source.row.val source.col.val := Place.ofCell_stands source
  have rows : (Expression.sub Place.here.row (Place.ofCell source).row).Stands binding
      (.num (row - source.row.val)) := Expression.stands_sub here.stands.1 start.1
  have cols : (Expression.sub Place.here.col (Place.ofCell source).col).Stands binding
      (.num (col - source.col.val)) := Expression.stands_sub here.stands.2 start.2
  have zero : (Expression.term (Term.int 0)).Stands binding (.num 0) := Term.stands_int 0
  rw [inLine, Test.compare_eq_iff (Expression.stands_mul rows cols) zero, Int.mul_eq_zero,
    Int.sub_eq_zero, Int.sub_eq_zero]

theorem fact_mem_lightFrom {atom : Atom} : .fact atom ∈ (lightFrom source color kind).statements ↔
    atom = reaches (lightLabel color kind) (.ofCell source) (.ofCell source) := by
  simp [lightFrom, lightLabel]

theorem rule_mem_lightFrom {head : Atom} {body : List Literal} :
    .rule head body ∈ (lightFrom source color kind).statements ↔
      head = reaches (lightLabel color kind) (.ofCell source) .here ∧
      body = .holds (reaches (lightLabel color kind) (.ofCell source) .other) ::
        inColor (some color) ++ [.holds (kind.joins .here .other), .test (inLine source)] := by
  simp [lightFrom, lightLabel, inColor, inLine]

theorem defines_lightFrom {relation : String} (defines : (lightFrom source color kind).Defines relation) :
    relation = lightLabel color kind := by
  rcases defines with ⟨atom, statement, rfl⟩ | ⟨head, body, statement, rfl⟩
  · rw [fact_mem_lightFrom.mp statement]
    rfl
  · rw [(rule_mem_lightFrom.mp statement).1]
    rfl

theorem lightFrom_spares : Spares (lightFrom source color kind) (some color) kind :=
  .of_spreadLabel fun _ => defines_lightFrom

theorem existsUnique_lightFrom (given : World) : ∃! world, (lightFrom source color kind).Model given world := by
  refine lightFrom_spares.existsUnique_model (fun head body statement literal member => ?_) given
  obtain ⟨_, rfl⟩ := rule_mem_lightFrom.mp statement
  rw [List.mem_append, List.mem_cons, List.mem_pair] at member
  rcases member with (rfl | inside) | rfl | rfl
  · exact .inl ⟨_, rfl⟩
  · exact .inr (.inl inside)
  · exact .inl ⟨_, rfl⟩
  · exact .inr (.inr rfl)

section Model

variable (fixed : kind.Fixed) (named : Named (some color) kind)
  (shaded : (board.colored color).isShaded source = true)
  (model : (lightFrom source color kind).Model (spreadFacts board (some color) kind includeSelf) world)
include named model

private theorem neighbors_of_light {a b : Cell} :
    world (.pair kind.relation a.row.val a.col.val b.row.val b.col.val) ↔
      board.adjacent a b kind = .ok true ∨ includeSelf = true ∧ a = b ∧ board.contains a = true := by
  rw [lightFrom_spares.neighbors named model _ rfl, Board.adjacencyFacts_pair]

include fixed

/-- The rule takes the label from a lit cell to the next one on its ray. -/
private theorem labelled_of_lit {cell : Cell} (lit : (board.colored color).Lit kind source cell) :
    world (.pair (lightLabel color kind) source.row.val source.col.val cell.row.val cell.col.val) := by
  obtain ⟨side, seen⟩ := lit
  induction seen with
  | refl =>
    refine (model.iff_supported _).mpr (.inr (.inl ⟨_, fact_mem_lightFrom.mpr rfl, fun _ => .inf, ?_⟩))
    exact (pair_denotes (Place.ofCell_stands _) (Place.ofCell_stands _)).mpr rfl
  | @tail cell next seen sees ih =>
    obtain ⟨binding, here, other⟩ :=
      Place.exists_here_other next.row.val next.col.val cell.row.val cell.col.val
    have start : (Place.ofCell source).Stands binding _ _ := Place.ofCell_stands source
    have back := Board.adjacent_symm fixed sees.2.2
    rw [← Board.tinted, Board.adjacent_tinted] at back
    have line : (inLine source).Holds world binding :=
      (inLine_holds here).mpr (Board.ahead_of_sees (seen.tail sees)).in_line
    refine (model.iff_supported _).mpr (.inr (.inr ⟨_, _, rule_mem_lightFrom.mpr ⟨rfl, rfl⟩, binding,
      (pair_denotes start here.stands).mpr rfl, ?_⟩))
    refine List.forall_mem_append.mpr ⟨List.forall_mem_cons.mpr ⟨?_, ?_⟩,
      List.forall_mem_cons.mpr ⟨?_, List.forall_mem_singleton.mpr line⟩⟩
    · exact (holds_pair start other.stands).mpr ih
    · exact ((lightFrom_spares.shows named model).inColor_holds here).mpr (Board.shades_cell.mpr sees.2.1)
    · exact (holds_pair here.stands other.stands).mpr ((neighbors_of_light named model).mpr (.inl back))

include shaded

private theorem lit_of_labelled (fact : Fact) (holds : world fact) (labelled : fact.relation = lightLabel color kind) :
    ∃ cell, (board.colored color).Lit kind source cell ∧
      fact = .pair (lightLabel color kind) source.row.val source.col.val cell.row.val cell.col.val := by
  have shows := lightFrom_spares.shows named model
  revert labelled
  -- by induction on derivations: the rule passes from a lit cell to a neighbor in line, which is lit
  refine model.induction (fun fact => fact.relation = lightLabel color kind → ∃ cell,
    (board.colored color).Lit kind source cell ∧ fact =
      .pair (lightLabel color kind) source.row.val source.col.val cell.row.val cell.col.val) ?_ ?_ ?_ fact holds
  · intro fact given labelled
    exact absurd labelled.symm (spreadFacts_apart given)
  · intro atom statement binding fact denoted _
    obtain rfl := fact_mem_lightFrom.mp statement
    exact ⟨source, ⟨.left, .refl⟩, (pair_denotes (Place.ofCell_stands _) (Place.ofCell_stands _)).mp denoted⟩
  · intro head body statement binding met before fact denoted _
    obtain ⟨rfl, rfl⟩ := rule_mem_lightFrom.mp statement
    rw [List.forall_mem_append, List.forall_mem_cons, List.forall_mem_cons, List.forall_mem_singleton] at met
    obtain ⟨⟨_, inColor⟩, joins, line⟩ := met
    have line : (inLine source).Holds world binding := line
    obtain ⟨premise, premiseDenoted, _, earlier⟩ := before _ (List.mem_append_left _ List.mem_cons_self)
    obtain ⟨cell, lit, same⟩ := earlier premiseDenoted.1
    obtain ⟨_, other⟩ := of_denotes (other_args binding) (same ▸ premiseDenoted)
    obtain ⟨row, col, _, here⟩ := shows.onGrid_here.mp (inColor _ List.mem_cons_self)
    obtain ⟨next, shadedNext, rfl, rfl⟩ := (shows.inColor_holds here).mp inColor
    refine ⟨next, ?_, (pair_denotes (Place.ofCell_stands _) here.stands).mp denoted⟩
    have beside := (holds_pair here.stands (Place.Other.stands other)).mp joins
    rcases (neighbors_of_light named model).mp beside with adjacent | ⟨_, rfl, _⟩
    · have back := Board.adjacent_symm fixed adjacent
      rw [← Board.adjacent_tinted (some color)] at back
      exact lit.step fixed (Board.contains_of_isShaded shaded) shadedNext back ((inLine_holds here).mp line)
    · exact lit

end Model

/-- For a source of the color, the rules have one model, and in it the label holds of the source and just the cells
that the board lights from there. -/
theorem lightFrom_agree (board : Board) (color : Color) (kind : Adjacency) (includeSelf : Bool) (source : Cell)
    (fixed : kind.Fixed) (named : Named (some color) kind) (shaded : (board.colored color).isShaded source = true) :
    (∃! world, (lightFrom source color kind).Model (spreadFacts board (some color) kind includeSelf) world) ∧
      (board.Bounded → ∃ cells, (board.colored color).bulb source kind = .ok cells) ∧
      ∀ cells, (board.colored color).bulb source kind = .ok cells →
        ∀ world, (lightFrom source color kind).Model (spreadFacts board (some color) kind includeSelf) world →
          ∀ fact : Fact, fact.relation = lightLabel color kind → (world fact ↔ ∃ cell ∈ cells,
            fact = .pair (lightLabel color kind) source.row.val source.col.val cell.row.val cell.col.val) := by
  refine ⟨existsUnique_lightFrom _, fun bounded => Board.exists_bulb (Board.bounded_colored bounded color) fixed source,
    fun cells found world model fact labelled => ?_⟩
  simp only [Board.mem_bulb found, shaded, true_and]
  refine ⟨fun holds => lit_of_labelled fixed named shaded model fact holds labelled, ?_⟩
  rintro ⟨cell, lit, rfl⟩
  exact labelled_of_lit fixed named model lit

/-- Cells around a corner, where the light could cut it. -/
def cornerBoard : Board := Board.ofShading 3 2 (by decide) fun row col => row = 0 || col = 1

theorem lightFrom_agree_cornerBoard : ∃ world,
    (lightFrom (.of 0 1) (.negated "white") .around).Model
      (spreadFacts cornerBoard.complement (some (.negated "white")) .around false) world ∧
    world (.pair (lightLabel (.negated "white") .around) 0 1 1 1) ∧
    world (.pair (lightLabel (.negated "white") .around) 0 1 0 0) ∧
    ¬ world (.pair (lightLabel (.negated "white") .around) 0 1 1 0) := by
  have named : Named (some (.negated "white")) .around := by
    intro own chosen
    cases chosen
    decide
  obtain ⟨⟨world, model, _⟩, _, agree⟩ := lightFrom_agree cornerBoard.complement (.negated "white") .around
    false (.of 0 1) ⟨nofun, nofun⟩ named (by decide +kernel)
  have lit : (cornerBoard.complement.colored (.negated "white")).bulb (.of 0 1) .around =
      .ok [.of 0 0, .of 0 1, .of 1 1, .of 2 1] := by decide +kernel
  have labelled (cell : Cell) : world (.pair (lightLabel (.negated "white") .around) 0 1 cell.row.val cell.col.val) ↔
      cell ∈ [Cell.of 0 0, .of 0 1, .of 1 1, .of 2 1] := by
    rw [agree _ lit world model _ rfl]
    constructor
    · rintro ⟨other, listed, same⟩
      obtain ⟨_, _, _, rows, cols⟩ := Fact.pair_inj.mp same
      exact Cell.ext rows cols ▸ listed
    · exact fun listed => ⟨cell, listed, rfl⟩
  exact ⟨world, model, (labelled (.of 1 1)).mpr (by decide), (labelled (.of 0 0)).mpr (by decide),
    fun holds => absurd ((labelled (.of 1 0)).mp holds) (by decide)⟩

end GridPuzzle.Template
