import GridPuzzle.Proofs.Template.Connection

/-!
Connected areas. Every area has a label of its own, which starts at the first cell of the color there and
does not leave the area. It leaves out a cell of the color exactly if the board that shades only the cells of
the color in that area is not connected.
-/
namespace GridPuzzle

namespace Board

variable {board : Board} {cells : List Cell} {cell : Cell}

/-- The board with the same walls that shades just those of its shaded cells that are listed. -/
def within (board : Board) (cells : List Cell) : Board :=
  { board with shading := .ofFn fun row => .ofFn fun col =>
      (board.shading.get row).get col && cells.any fun cell => cell.row.val = row.val ∧ cell.col.val = col.val }

theorem isShaded_within : (board.within cells).isShaded cell = true ↔
    board.isShaded cell = true ∧ cell ∈ cells := by
  by_cases inside : board.contains cell = true
  · obtain ⟨row, col, rows, cols⟩ := exists_index inside
    have picked : (board.within cells).isShaded cell = (board.shading[row][col] &&
        cells.any fun cell => cell.row.val = row.val ∧ cell.col.val = col.val) := by
      rw [isShaded_at (board.within cells) row col rows cols]
      change ((Vector.ofFn fun row : Fin board.rows => Vector.ofFn fun col : Fin board.cols =>
        (board.shading.get row).get col && cells.any fun cell =>
          cell.row.val = row.val ∧ cell.col.val = col.val)[row.val])[col.val] = _
      rw [Vector.getElem_ofFn, Vector.getElem_ofFn]
      rfl
    rw [picked, isShaded_at board row col rows cols, Bool.and_eq_true, and_congr_right_iff]
    intro _
    simp only [List.any_eq_true, decide_eq_true_iff]
    constructor
    · intro listed
      obtain ⟨other, member, rows', cols'⟩ := listed
      exact Cell.ext (rows'.trans rows.symm) (cols'.trans cols.symm) ▸ member
    · exact fun member => ⟨cell, member, rows, cols⟩
  · refine ⟨fun shaded => absurd (contains_of_isShaded shaded) inside, fun both => ?_⟩
    exact absurd (contains_of_isShaded both.1) inside

theorem adjacent_within (a b : Cell) (kind : Adjacency) :
    (board.within cells).adjacent a b kind = board.adjacent a b kind := rfl

end Board

/-- A relation holds of an area and a cell. -/
def Fact.inArea (relation : String) (area : Value) (row col : Int) : Fact :=
  ⟨relation, [area, .num row, .num col]⟩

namespace Template

variable {board : Board} {areas : Value → List Cell} {color : Color} {kind : Adjacency} {includeSelf : Bool}
  {world : World} {binding : Binding} {area row col : Value} {place : Place}

/-- The facts that give each area its cells. -/
def areaFacts (areas : Value → List Cell) : World := fun fact =>
  ∃ area, ∃ cell ∈ areas area, fact = .inArea Relation.area area cell.row.val cell.col.val

def dividedFacts (board : Board) (areas : Value → List Cell) (color : Color) (kind : Adjacency)
    (includeSelf : Bool) : World :=
  (spreadFacts board (some color) kind includeSelf).join (areaFacts areas)

/-- The board that shades the cells of a color in one area. -/
def sector (board : Board) (areas : Value → List Cell) (color : Color) (area : Value) : Board :=
  (board.colored color).within (areas area)

def inAreaColor (color : Color) (place : Place) : List Test :=
  [inArea Scope.areaVariable place, color.on place]

def sectorCells (color : Color) : Element := ⟨Place.other.args.map .term, inAreaColor color .other⟩

def sectorStart (color : Color) : List Literal :=
  [.test (inArea Scope.areaVariable ⟨.anon, .anon⟩), .extremum ["R", "C"] .least [sectorCells color]]

def sectorSpread (label : String) (color : Color) (kind : Adjacency) : List Literal :=
  .holds (Scope.area.keyed label Place.other.args) :: (inAreaColor color .here).map .test ++
    [.holds (kind.joins .here .other)]

def areaLabel (color : Color) (kind : Adjacency) : String := spreadLabel ["area"] kind (some color)

theorem connectedInAreas_eq : connectedInAreas color kind =
    ⟨[.rule (Scope.area.keyed (areaLabel color kind) Place.here.args) (sectorStart color),
      .rule (Scope.area.keyed (areaLabel color kind) Place.here.args)
        (sectorSpread (areaLabel color kind) color kind),
      .constraint ((inAreaColor color .here).map .test ++
        [.fails (Scope.area.keyed (areaLabel color kind) Place.here.args)])]⟩ := rfl

theorem rule_mem_connectedInAreas {head : Atom} {body : List Literal} :
    .rule head body ∈ (connectedInAreas color kind).statements ↔
      head = Scope.area.keyed (areaLabel color kind) Place.here.args ∧
        (body = sectorStart color ∨ body = sectorSpread (areaLabel color kind) color kind) := by
  simp only [connectedInAreas_eq, List.mem_cons, Statement.rule.injEq, reduceCtorEq, List.not_mem_nil, or_false]
  exact and_or_left.symm

theorem fact_not_mem_connectedInAreas {atom : Atom} : .fact atom ∉ (connectedInAreas color kind).statements := by
  simp [connectedInAreas_eq]

theorem constraint_mem_connectedInAreas {body : List Literal} :
    .constraint body ∈ (connectedInAreas color kind).statements ↔ body = (inAreaColor color .here).map .test ++
      [.fails (Scope.area.keyed (areaLabel color kind) Place.here.args)] := by
  simp [connectedInAreas_eq]

theorem defines_connectedInAreas {relation : String} (defines : (connectedInAreas color kind).Defines relation) :
    relation = areaLabel color kind := by
  rcases defines with ⟨atom, statement, _⟩ | ⟨head, body, statement, rfl⟩
  · exact absurd statement fact_not_mem_connectedInAreas
  · rw [(rule_mem_connectedInAreas.mp statement).1]
    rfl

theorem areaLabel_ne_area : areaLabel color kind ≠ Relation.area := spreadLabel_ne (by decide)

theorem areaLabel_ne_name : areaLabel color kind ≠ color.name := spreadLabel_ne_name

theorem existsUnique_connectedInAreas (given : World) :
    ∃! world, (connectedInAreas color kind).Model given world := by
  refine Program.existsUnique_model_of_lower [Relation.area, color.name] ?_ ?_ given
  · intro relation lower defines
    rw [defines_connectedInAreas defines] at lower
    simp [areaLabel_ne_area, areaLabel_ne_name] at lower
  · intro head body statement literal member negative relation looked
    rcases (rule_mem_connectedInAreas.mp statement).2 with rfl | rfl
    · rcases List.mem_pair.mp member with rfl | rfl
      · exact absurd rfl (negative _)
      · cases color <;> simpa [sectorCells, inAreaColor, Literal.relations, Test.relations, inArea, Color.on,
          Atom.cell, Color.name] using looked
    · simp only [sectorSpread, inAreaColor, List.map_cons, List.map_nil, List.cons_append, List.nil_append,
        List.mem_cons, List.not_mem_nil, or_false] at member
      rcases member with rfl | rfl | rfl | rfl
      · exact absurd rfl (negative _)
      · exact absurd rfl (negative _)
      · cases color <;> exact List.mem_cons_of_mem _ looked
      · exact absurd rfl (negative _)

/-- The world shows the board with the cells of a color, and which of its cells each area has. -/
structure Divides (world : World) (board : Board) (areas : Value → List Cell) (color : Color) : Prop where
  shows : world.Shows board (some color)
  members : ∀ fact : Fact, fact.relation = Relation.area → (world fact ↔ areaFacts areas fact)
  inside : ∀ area, ∀ cell ∈ areas area, board.contains cell = true

theorem keyed_here (binding : Binding) : StandAll binding (Scope.areaVariable :: Place.here.args)
    [binding "A", binding "R", binding "C"] :=
  .cons (Term.stands_var "A") (here_args binding)

theorem keyed_other (binding : Binding) : StandAll binding (Scope.areaVariable :: Place.other.args)
    [binding "A", binding "R1", binding "C1"] :=
  .cons (Term.stands_var "A") (other_args binding)

theorem sectorCells_stand {cell : Cell} (other : Place.Other binding cell.row.val cell.col.val) :
    List.Forall₂ (Expression.Stands binding) (sectorCells color).tuple (Value.nums (startRank none cell)) :=
  .cons (Expression.stands_term other.stands.1) (.cons (Expression.stands_term other.stands.2) .nil)

namespace Divides

variable (divides : Divides world board areas color)
include divides

theorem member_iff (stand : StandAll binding place.args [row, col]) :
    (inArea Scope.areaVariable place).Holds world binding ↔
      ∃ cell ∈ areas (binding "A"), row = .num cell.row.val ∧ col = .num cell.col.val := by
  have all : StandAll binding (Scope.areaVariable :: place.args) [binding "A", row, col] :=
    .cons (Term.stands_var "A") stand
  rw [inArea, Test.holds_iff all, divides.members _ rfl]
  constructor
  · intro given
    obtain ⟨area, cell, member, same⟩ := given
    simp only [Fact.inArea, Fact.mk.injEq, List.cons.injEq, true_and, and_true] at same
    exact ⟨cell, same.1 ▸ member, same.2⟩
  · intro listed
    obtain ⟨cell, member, rfl, rfl⟩ := listed
    exact ⟨_, cell, member, rfl⟩

/-- A cell of the color in the area of the rule is one that the board of that area shades. -/
theorem matched_iff (stand : StandAll binding place.args [row, col]) :
    (∀ test ∈ inAreaColor color place, test.Holds world binding) ↔
      ∃ cell, (sector board areas color (binding "A")).isShaded cell = true ∧
        row = .num cell.row.val ∧ col = .num cell.col.val := by
  rw [inAreaColor, List.forall_mem_cons, List.forall_mem_singleton, divides.member_iff stand]
  have on {cell : Cell} (inside : board.contains cell = true)
      (stands : place.Stands binding cell.row.val cell.col.val) :
      (color.on place).Holds world binding ↔ (board.colored color).isShaded cell = true := by
    rw [holds_on color stands, ← Board.shades_cell, divides.shows.shades_colored,
      and_iff_right (Board.covers_cell.mpr inside)]
  have stands {cell : Cell} (rows : row = .num cell.row.val) (cols : col = .num cell.col.val) :
      place.Stands binding cell.row.val cell.col.val := by
    obtain ⟨down, rest⟩ := List.forall₂_cons.mp stand
    exact ⟨rows ▸ down, cols ▸ (List.forall₂_cons.mp rest).1⟩
  constructor
  · intro both
    obtain ⟨⟨cell, member, rows, cols⟩, matched⟩ := both
    refine ⟨cell, Board.isShaded_within.mpr ⟨?_, member⟩, rows, cols⟩
    exact (on (divides.inside _ cell member) (stands rows cols)).mp matched
  · intro shaded
    obtain ⟨cell, shaded, rows, cols⟩ := shaded
    obtain ⟨colored, member⟩ := Board.isShaded_within.mp shaded
    exact ⟨⟨cell, member, rows, cols⟩, (on (divides.inside _ cell member) (stands rows cols)).mpr colored⟩

theorem here_iff : (∀ test ∈ inAreaColor color .here, test.Holds world binding) ↔
    ∃ cell, (sector board areas color (binding "A")).isShaded cell = true ∧
      Place.Here binding cell.row.val cell.col.val :=
  divides.matched_iff (here_args binding)

theorem sectorCells_yields {outer : List String} (known : "A" ∈ outer) (free : "R1" ∉ outer ∧ "C1" ∉ outer)
    (tuple : List Value) : (sectorCells color).Yields world outer binding tuple ↔
      ∃ cell, (sector board areas color (binding "A")).isShaded cell = true ∧
        tuple = Value.nums (startRank none cell) := by
  constructor
  · intro yields
    obtain ⟨inner, agree, met, denoted⟩ := yields
    obtain ⟨cell, shaded, other⟩ := (divides.matched_iff (other_args inner)).mp met
    rw [agree "A" known] at shaded
    exact ⟨cell, shaded, (denoteAll_iff (sectorCells_stand other)).mp denoted⟩
  · intro candidate
    obtain ⟨cell, shaded, rfl⟩ := candidate
    let inner : Binding := fun name =>
      if name = "R1" then .num cell.row.val else if name = "C1" then .num cell.col.val else binding name
    have other : Place.Other inner cell.row.val cell.col.val := ⟨rfl, rfl⟩
    refine ⟨inner, fun name isOuter => ?_, (divides.matched_iff (other_args inner)).mpr ⟨cell, shaded, other⟩,
      (denoteAll_iff (sectorCells_stand other)).mpr rfl⟩
    have row : name ≠ "R1" := fun same => free.1 (same ▸ isOuter)
    have col : name ≠ "C1" := fun same => free.2 (same ▸ isOuter)
    simp only [inner, row, col, if_false]

theorem start_holds (label : String) :
    (∀ literal ∈ sectorStart color, literal.Holds world
      (Program.ruleScope (Scope.area.keyed label Place.here.args) (sectorStart color)) binding) ↔
      ∃ cell, (sector board areas color (binding "A")).IsFirst none cell ∧
        Place.Here binding cell.row.val cell.col.val := by
  have scope : Program.ruleScope (Scope.area.keyed label Place.here.args) (sectorStart color) =
      ["A", "R", "C", "A", "R", "C"] := rfl
  have known : "A" ∈ ["A", "R", "C", "A", "R", "C"] := List.mem_cons_self
  have free : "R1" ∉ ["A", "R", "C", "A", "R", "C"] ∧ "C1" ∉ ["A", "R", "C", "A", "R", "C"] := by decide
  have bound : ["R", "C"].map binding ≠ [.sup] := by simp
  have ranks (tuple : List Value) : (∃ element ∈ [sectorCells color], element.Yields world
      ["A", "R", "C", "A", "R", "C"] binding tuple) ↔
      ∃ cell, (sector board areas color (binding "A")).isShaded cell = true ∧
        tuple = Value.nums (startRank none cell) := by
    rw [← divides.sectorCells_yields known free tuple]
    simp only [List.mem_singleton, exists_eq_left]
  have least : (Literal.extremum ["R", "C"] .least [sectorCells color]).Holds world
      ["A", "R", "C", "A", "R", "C"] binding ↔ ∃ cell,
        (sector board areas color (binding "A")).IsFirst none cell ∧
          Place.Here binding cell.row.val cell.col.val := by
    rw [Literal.Holds, Extremum.least_attains ranks bound]
    refine exists_congr fun cell => ?_
    rw [Board.IsFirst, and_assoc, and_congr_right_iff]
    intro _
    rw [and_comm]
    simp [startRank, Place.Here]
  rw [scope, sectorStart, List.forall_mem_cons, List.forall_mem_singleton, least]
  refine and_iff_right_of_imp fun started => ?_
  -- the area of a first cell is an area that some cell belongs to
  obtain ⟨cell, isFirst, _⟩ := started
  obtain ⟨_, member⟩ := Board.isShaded_within.mp isFirst.1
  refine ⟨.inArea Relation.area (binding "A") cell.row.val cell.col.val, ⟨rfl, ?_⟩, ?_⟩
  · exact denoteAll_cons.mpr ⟨_, _, rfl, rfl, denoteAll_cons.mpr ⟨_, _, rfl, trivial,
      denoteAll_cons.mpr ⟨_, _, rfl, trivial, denoteAll_nil.mpr rfl⟩⟩⟩
  · exact (divides.members _ rfl).mpr ⟨_, cell, member, rfl⟩

end Divides

section Labels

variable (fixed : kind.Fixed) (divides : Divides world board areas color)
  (neighbors : ∀ fact : Fact, fact.relation = kind.relation →
    (world fact ↔ board.adjacencyFacts kind includeSelf fact))
  (model : (connectedInAreas color kind).Model (dividedFacts board areas color kind includeSelf) world)

/-- The label that an area gives to a cell of its own. -/
def areaLabelled (color : Color) (kind : Adjacency) (area : Value) (cell : Cell) : Fact :=
  .inArea (areaLabel color kind) area cell.row.val cell.col.val

/-- The cell is joined to the first one of its area by cells of the color there. -/
def Led (board : Board) (areas : Value → List Cell) (color : Color) (kind : Adjacency) (area : Value)
    (cell : Cell) : Prop :=
  Covered (sector board areas color area) kind ((sector board areas color area).IsFirst none) cell

theorem exists_in_area (area : Value) (row col row' col' : Int) : ∃ binding : Binding,
    binding "A" = area ∧ Place.Here binding row col ∧ Place.Other binding row' col' := by
  obtain ⟨binding, here, other⟩ := Place.exists_here_other row col row' col'
  exact ⟨fun name => if name = "A" then area else binding name, rfl, here, other⟩

theorem keyed_here_denotes {label : String} {fact : Fact} :
    (Scope.area.keyed label Place.here.args).Denotes binding fact ↔
      fact = ⟨label, [binding "A", binding "R", binding "C"]⟩ :=
  Atom.denotes_iff (keyed_here binding)

include model divides

theorem led_start {cell : Cell} (isFirst : (sector board areas color area).IsFirst none cell) :
    world (areaLabelled color kind area cell) := by
  obtain ⟨binding, rfl, here, _⟩ := exists_in_area area cell.row.val cell.col.val 0 0
  refine (model.iff_supported _).mpr (.inr (.inr ⟨_, _, rule_mem_connectedInAreas.mpr ⟨rfl, .inl rfl⟩, binding,
    keyed_here_denotes.mpr ?_, (divides.start_holds _).mpr ⟨cell, isFirst, here⟩⟩))
  rw [here.1, here.2]
  rfl

include neighbors

theorem led_step {cell next : Cell} (labelled : world (areaLabelled color kind area cell))
    (shaded : (sector board areas color area).isShaded next = true)
    (adjacent : board.adjacent next cell kind = .ok true) : world (areaLabelled color kind area next) := by
  obtain ⟨binding, rfl, here, other⟩ :=
    exists_in_area area next.row.val next.col.val cell.row.val cell.col.val
  have joins := (neighbors _ rfl).mpr (Board.adjacencyFacts_pair.mpr (.inl adjacent))
  refine (model.iff_supported _).mpr (.inr (.inr ⟨_, _, rule_mem_connectedInAreas.mpr ⟨rfl, .inr rfl⟩, binding,
    keyed_here_denotes.mpr ?_, ?_⟩))
  · rw [here.1, here.2]
    rfl
  · refine List.forall_mem_append.mpr ⟨List.forall_mem_cons.mpr ⟨?_, ?_⟩, List.forall_mem_singleton.mpr ?_⟩
    · refine (Test.holds_iff (keyed_other binding)).mpr ?_
      rw [other.1, other.2]
      exact labelled
    · exact List.forall_mem_map.mpr (divides.here_iff.mpr ⟨next, shaded, here⟩)
    · exact (holds_pair here.stands other.stands).mpr joins

include fixed

theorem labelled_of_led {cell : Cell} (led : Led board areas color kind area cell) :
    world (areaLabelled color kind area cell) := by
  obtain ⟨source, isFirst, joined⟩ := led
  induction joined with
  | refl => exact led_start divides model isFirst
  | tail _ linked ih =>
    have back := Board.adjacent_symm fixed linked.2.2
    rw [sector, Board.adjacent_within, ← Board.tinted, Board.adjacent_tinted] at back
    exact led_step divides neighbors model ih linked.2.1 back

theorem led_of_label (fresh : ∀ fact, dividedFacts board areas color kind includeSelf fact →
      fact.relation ≠ areaLabel color kind) (fact : Fact) (holds : world fact)
    (labelled : fact.relation = areaLabel color kind) :
    ∃ area cell, Led board areas color kind area cell ∧ fact = areaLabelled color kind area cell := by
  revert labelled
  -- by induction on derivations: a label starts at the first cell of its area and stays there
  refine model.induction (fun fact => fact.relation = areaLabel color kind → ∃ area cell,
    Led board areas color kind area cell ∧ fact = areaLabelled color kind area cell) ?_ ?_ ?_ fact holds
  · intro fact isGiven labelled
    exact absurd labelled (fresh fact isGiven)
  · intro atom statement
    exact absurd statement fact_not_mem_connectedInAreas
  · intro head body statement binding met before fact denoted _
    obtain ⟨rfl, rfl | rfl⟩ := rule_mem_connectedInAreas.mp statement
    · obtain ⟨cell, isFirst, here⟩ := (divides.start_holds _).mp met
      refine ⟨binding "A", cell, ⟨cell, isFirst, .refl⟩, (keyed_here_denotes.mp denoted).trans ?_⟩
      rw [here.1, here.2]
      rfl
    · obtain ⟨premise, premiseDenoted, _, earlier⟩ := before _ (List.mem_append_left _ List.mem_cons_self)
      obtain ⟨area, cell, ⟨source, isFirst, joined⟩, rfl⟩ := earlier premiseDenoted.1
      have other := (Atom.denotes_iff (keyed_other binding)).mp premiseDenoted
      simp only [areaLabelled, Fact.inArea, Fact.mk.injEq, List.cons.injEq, true_and, and_true] at other
      obtain ⟨rfl, rows, cols⟩ := other
      rw [sectorSpread, List.forall_mem_append, List.forall_mem_cons, List.forall_mem_map] at met
      obtain ⟨next, shaded, here⟩ := divides.here_iff.mp met.1.2
      have joins := (holds_pair here.stands (Place.Other.stands ⟨rows.symm, cols.symm⟩)).mp
        (met.2 _ (List.mem_singleton_self _))
      have beside := Board.adjacencyFacts_pair.mp ((neighbors _ rfl).mp joins)
      refine ⟨binding "A", next, ⟨source, isFirst, ?_⟩, (keyed_here_denotes.mp denoted).trans ?_⟩
      · rcases beside with adjacent | ⟨_, rfl, _⟩
        · have back := Board.adjacent_symm fixed adjacent
          rw [← Board.adjacent_tinted (some color), Board.tinted, ← Board.adjacent_within] at back
          exact joined.tail ⟨joined.isShaded isFirst.1, shaded, back⟩
        · exact joined
      · rw [here.1, here.2]
        rfl

end Labels

section Model

variable (named : Named (some color) kind) (free : color.name ≠ Relation.area)
  (inside : ∀ area, ∀ cell ∈ areas area, board.contains cell = true)

theorem areaFacts_relation {fact : Fact} (given : areaFacts areas fact) : fact.relation = Relation.area := by
  obtain ⟨area, cell, _, rfl⟩ := given
  rfl

theorem dividedFacts_fresh (fact : Fact) (given : dividedFacts board areas color kind includeSelf fact) :
    fact.relation ≠ areaLabel color kind := by
  intro same
  rcases given with spread | member
  · rcases spreadFacts_relation spread with isFixed | ⟨own, chosen, isColor⟩
    · exact spreadLabel_ne_fixed (same ▸ isFixed) rfl
    · cases chosen
      exact areaLabel_ne_name (same.symm.trans isColor)
  · exact areaLabel_ne_area (same.symm.trans (areaFacts_relation member))

include named

theorem dividedFacts_neighbors (fact : Fact) (same : fact.relation = kind.relation) :
    dividedFacts board areas color kind includeSelf fact ↔ board.adjacencyFacts kind includeSelf fact := by
  rw [← spreadFacts_neighbors named fact same]
  refine or_iff_left fun member => ?_
  have apart : kind.relation ≠ Relation.area := by cases kind <;> decide
  exact apart (same.symm.trans (areaFacts_relation member))

include free

theorem dividedFacts_members (fact : Fact) (same : fact.relation = Relation.area) :
    dividedFacts board areas color kind includeSelf fact ↔ areaFacts areas fact := by
  refine or_iff_right fun spread => ?_
  rcases spreadFacts_relation spread with isFixed | ⟨own, chosen, isColor⟩
  · have apart : Relation.area ∉ fixedRelations kind := by cases kind <;> decide
    exact apart (same ▸ isFixed)
  · cases chosen
    exact free (isColor.symm.trans same)

theorem dividedFacts_shows :
    World.Shows (dividedFacts board areas color kind includeSelf) board (some color) := by
  refine (spreadFacts_shows named).join fun fact member => ?_
  rw [areaFacts_relation member]
  refine ⟨by decide, fun own chosen => ?_⟩
  cases chosen
  exact free

include inside

theorem divides_of_model
    (model : (connectedInAreas color kind).Model (dividedFacts board areas color kind includeSelf) world) :
    Divides world board areas color := by
  refine ⟨(dividedFacts_shows named free).of_model model ?_ ?_, fun fact same => ?_, inside⟩
  · intro defines
    exact spreadLabel_ne_fixed (by simp [fixedRelations]) (defines_connectedInAreas defines).symm
  · intro own chosen defines
    cases chosen
    exact areaLabel_ne_name (defines_connectedInAreas defines).symm
  · rw [model.iff_given, dividedFacts_members named free fact same]
    rw [same]
    exact fun defines => areaLabel_ne_area (defines_connectedInAreas defines).symm

omit inside free in
theorem neighbors_of_divided
    (model : (connectedInAreas color kind).Model (dividedFacts board areas color kind includeSelf) world)
    (fact : Fact) (same : fact.relation = kind.relation) :
    world fact ↔ board.adjacencyFacts kind includeSelf fact := by
  rw [model.iff_given, dividedFacts_neighbors named fact same]
  rw [same]
  exact fun defines => spreadLabel_ne_fixed (by simp [fixedRelations]) (defines_connectedInAreas defines).symm

end Model

/-- The one constraint is broken where some label leaves out a cell of the color in its area. -/
theorem violated_connectedInAreas (divides : Divides world board areas color)
    (labelled_iff : ∀ area cell, world (areaLabelled color kind area cell) ↔
      Led board areas color kind area cell) :
    (connectedInAreas color kind).Violated world ↔ ∃ area cell,
      (sector board areas color area).isShaded cell = true ∧ ¬ Led board areas color kind area cell := by
  have missing {binding : Binding} {cell : Cell} (here : Place.Here binding cell.row.val cell.col.val) :
      (Test.fails (Scope.area.keyed (areaLabel color kind) Place.here.args)).Holds world binding ↔
        ¬ Led board areas color kind (binding "A") cell := by
    rw [← labelled_iff]
    refine (Test.fails_iff (keyed_here binding)).trans ?_
    rw [here.1, here.2]
    rfl
  constructor
  · intro violated
    obtain ⟨body, statement, binding, met⟩ := violated
    obtain rfl := constraint_mem_connectedInAreas.mp statement
    rw [List.forall_mem_append, List.forall_mem_map, List.forall_mem_singleton] at met
    obtain ⟨cell, shaded, here⟩ := divides.here_iff.mp met.1
    exact ⟨binding "A", cell, shaded, (missing here).mp met.2⟩
  · intro missed
    obtain ⟨area, cell, shaded, unled⟩ := missed
    obtain ⟨binding, rfl, here, _⟩ := exists_in_area area cell.row.val cell.col.val 0 0
    refine ⟨_, constraint_mem_connectedInAreas.mpr rfl, binding, List.forall_mem_append.mpr
      ⟨List.forall_mem_map.mpr ?_, List.forall_mem_singleton.mpr ((missing here).mpr unled)⟩⟩
    exact divides.here_iff.mpr ⟨cell, shaded, here⟩

/-- For any division of the board into areas, which may overlap or fall apart, the rules have one model, and
their constraint is broken in it exactly if the board that shades just the cells of the color in some area
is not connected. -/
theorem connectedInAreas_agree (board : Board) (areas : Value → List Cell)
    (inside : ∀ area, ∀ cell ∈ areas area, board.contains cell = true) (color : Color) (kind : Adjacency)
    (includeSelf : Bool) (fixed : kind.Fixed) (named : Named (some color) kind)
    (free : color.name ≠ Relation.area) :
    (∃! world, (connectedInAreas color kind).Model (dividedFacts board areas color kind includeSelf) world) ∧
      (board.Bounded → ∃ answers : Value → Bool,
        ∀ area, ((board.colored color).within (areas area)).isConnected kind = .ok (answers area)) ∧
      ∀ answers : Value → Bool,
        (∀ area, ((board.colored color).within (areas area)).isConnected kind = .ok (answers area)) →
        ∀ world, (connectedInAreas color kind).Model (dividedFacts board areas color kind includeSelf) world →
          ((connectedInAreas color kind).Violated world ↔ ∃ area, answers area = false) := by
  refine ⟨existsUnique_connectedInAreas _, fun bounded => ?_, fun answers decided world model => ?_⟩
  · have found (area : Value) : ∃ answer, (sector board areas color area).isConnected kind = .ok answer := by
      have bounded : (sector board areas color area).Bounded := Board.bounded_colored bounded color
      obtain ⟨groups, grouped⟩ := bounded.exists_components fixed
      exact Board.exists_isConnected grouped
    choose answers decided using found
    exact ⟨answers, decided⟩
  · have divides := divides_of_model named free inside model
    have neighbors := neighbors_of_divided named model
    have labelled_iff (area : Value) (cell : Cell) : world (areaLabelled color kind area cell) ↔
        Led board areas color kind area cell := by
      refine ⟨fun holds => ?_, labelled_of_led fixed divides neighbors model⟩
      obtain ⟨area', cell', led, same⟩ :=
        led_of_label fixed divides neighbors model dividedFacts_fresh _ holds rfl
      simp only [areaLabelled, Fact.inArea, Fact.mk.injEq, List.cons.injEq, Value.num.injEq, true_and,
        and_true] at same
      obtain ⟨rfl, rows, cols⟩ := same
      exact Cell.ext rows cols ▸ led
    rw [violated_connectedInAreas divides labelled_iff]
    refine exists_congr fun area => ?_
    rw [← Bool.not_eq_true, Board.isConnected_iff fixed (decided area)]
    exact Board.covered_first_iff fixed none

/-- Two ends of a row of three black cells are one area, and the middle with the right end is another. -/
def splitAreas : Value → List Cell
  | .num 0 => [.of 0 0, .of 0 2]
  | .num 1 => [.of 0 1, .of 0 2]
  | _ => []

def rowBoard : Board := .ofShading 1 3 Board.gateBoard.positive fun _ _ => true

theorem connectedInAreas_agree_split : ∃ world,
    (connectedInAreas (.positive "black") .side).Model
      (dividedFacts rowBoard splitAreas (.positive "black") .side false) world ∧
    (connectedInAreas (.positive "black") .side).Violated world := by
  have named : Named (some (.positive "black")) .side := by
    intro own chosen
    cases chosen
    decide
  have inside (area : Value) (cell : Cell) (member : cell ∈ splitAreas area) :
      rowBoard.contains cell = true := by
    have all : ∀ cell ∈ [Cell.of 0 0, .of 0 1, .of 0 2], rowBoard.contains cell = true := by decide
    refine all cell ?_
    unfold splitAreas at member
    split at member <;> simp only [List.mem_cons, List.not_mem_nil] at member ⊢ <;> tauto
  obtain ⟨⟨world, model, _⟩, found, agree⟩ := connectedInAreas_agree rowBoard splitAreas inside
    (.positive "black") .side false Adjacency.fixed_side named (by decide)
  obtain ⟨answers, decided⟩ := found ⟨by decide, by decide⟩
  have apart : (rowBoard.within (splitAreas (.num 0))).isConnected .side = .ok false := by decide +kernel
  have answer := Except.ok.inj ((decided (.num 0)).symm.trans apart)
  exact ⟨world, model, (agree answers decided world model).mpr ⟨.num 0, answer⟩⟩

end Template

end GridPuzzle
