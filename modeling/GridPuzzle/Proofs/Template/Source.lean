import GridPuzzle.Template.Source
import GridPuzzle.Proofs.Board.Facts
import GridPuzzle.Proofs.Label

/-!
What sources reach. Under any number of sources at once, the cells that a model labels for one of them are
that source and all that the board joins to the shaded cells beside it.
-/
namespace GridPuzzle.Template

variable {board : Board} {color : Option Color} {kind : Adjacency} {world : World} {includeSelf : Bool}

/-- A source with the cells that it has to reach and those that it must not. -/
structure Clue where
  source : Cell
  required : List Cell
  forbidden : List Cell

def reachFromAll (clues : List Clue) (color : Option Color) (kind : Adjacency) : Program :=
  clues.foldr (fun clue rest => reachFrom clue.source clue.required clue.forbidden color kind ++ rest) .empty

def spreadFacts (board : Board) (color : Option Color) (kind : Adjacency) (includeSelf : Bool) : World :=
  ((board.gridFacts.join (color.elim .empty fun own => board.colorFacts own.name)).join board.wallFacts).join
    (board.adjacencyFacts kind includeSelf)

def fixedRelations (kind : Adjacency) : List String :=
  [Relation.grid, Relation.wallLeft, Relation.wallTop, kind.relation]

variable {clues : List Clue}

theorem mem_reachFromAll {statement : Statement} :
    statement ∈ (reachFromAll clues color kind).statements ↔ ∃ clue ∈ clues,
      statement ∈ (reachFrom clue.source clue.required clue.forbidden color kind).statements := by
  induction clues with
  | nil => simp [reachFromAll, Program.empty]
  | cons clue rest ih =>
    change statement ∈ _ ++ (reachFromAll rest color kind).statements ↔ _
    rw [List.mem_append, ih, List.exists_mem_cons_iff]

theorem fact_mem_reachFromAll {atom : Atom} : .fact atom ∈ (reachFromAll clues color kind).statements ↔
    ∃ clue ∈ clues, atom =
      reaches (sourceLabel color kind) (.ofCell clue.source) (.ofCell clue.source) := by
  rw [mem_reachFromAll]
  refine exists_congr fun clue => and_congr_right fun _ => ?_
  simp [reachFrom]

theorem rule_mem_reachFromAll {head : Atom} {body : List Literal} :
    .rule head body ∈ (reachFromAll clues color kind).statements ↔ ∃ clue ∈ clues,
      head = reaches (sourceLabel color kind) (.ofCell clue.source) .here ∧
      body = .holds (reaches (sourceLabel color kind) (.ofCell clue.source) .other) ::
        inColor color ++ [.holds (kind.joins .here .other)] := by
  rw [mem_reachFromAll]
  refine exists_congr fun clue => and_congr_right fun _ => ?_
  cases color <;> simp [reachFrom, inColor]

theorem constraint_mem_reachFromAll {body : List Literal} :
    .constraint body ∈ (reachFromAll clues color kind).statements ↔ ∃ clue ∈ clues,
      (∃ cell ∈ clue.required,
        body = [.fails (reaches (sourceLabel color kind) (.ofCell clue.source) (.ofCell cell))]) ∨
      (∃ cell ∈ clue.forbidden,
        body = [.holds (reaches (sourceLabel color kind) (.ofCell clue.source) (.ofCell cell))]) ∨
      kind = .walled ∧ ∃ place ∈ Board.wallSides,
        body = [.holds (reaches (sourceLabel color kind) (.ofCell clue.source) .here),
          .holds (reaches (sourceLabel color kind) (.ofCell clue.source) (Place.here.step place.1.offset)),
          .holds (.cell place.2 (Place.here.step place.1.offset))] := by
  rw [mem_reachFromAll]
  refine exists_congr fun clue => and_congr_right fun _ => ?_
  by_cases walled : kind = .walled <;>
    simp [reachFrom, Board.wallSides, walled, @eq_comm _ _ body]

theorem spreadLabel_ne {words : List String} {relation : String}
    (apart : ¬ "reachable".toList <+: relation.toList) : spreadLabel words kind color ≠ relation :=
  fun same => apart (same ▸ Label.base_isPrefix "reachable" _)

theorem spreadLabel_ne_fixed {words : List String} {relation : String}
    (given : relation ∈ fixedRelations kind) : spreadLabel words kind color ≠ relation := by
  have apart : ∀ relation ∈ fixedRelations kind, ¬ "reachable".toList <+: relation.toList := by
    cases kind <;> decide
  exact spreadLabel_ne (apart relation given)

theorem spreadLabel_ne_name {words : List String} {color : Color} :
    spreadLabel words kind (some color) ≠ color.name :=
  Label.join_ne_name (by simp)

theorem defines_reachFromAll {relation : String}
    (defines : (reachFromAll clues color kind).Defines relation) : relation = sourceLabel color kind := by
  rcases defines with stated | derived
  · obtain ⟨atom, statement, same⟩ := stated
    obtain ⟨clue, _, rfl⟩ := fact_mem_reachFromAll.mp statement
    exact same.symm
  · obtain ⟨head, body, statement, same⟩ := derived
    obtain ⟨clue, _, rfl, _⟩ := rule_mem_reachFromAll.mp statement
    exact same.symm

/-- The color, if there is one, is none of the given relations. -/
def Named (color : Option Color) (kind : Adjacency) : Prop :=
  ∀ own, color = some own → own.name ∉ fixedRelations kind

theorem Named.apart (named : Named color kind) {relation : String} (fixed : relation ∈ fixedRelations kind) :
    ∀ own, color = some own → own.name ≠ relation := by
  intro own chosen same
  exact named own chosen (same ▸ fixed)

private theorem wallFacts_fixed {fact : Fact} (isWall : board.wallFacts fact) :
    fact.relation ∈ [Relation.wallLeft, Relation.wallTop] := by
  rcases Board.wallFacts_relation isWall with same | same <;> simp [same]

theorem spreadFacts_shows (named : Named color kind) :
    World.Shows (spreadFacts board color kind includeSelf) board color := by
  refine ((World.Shows.of_board color ?_).join ?_).join ?_
  · exact named.apart (by simp [fixedRelations])
  · intro fact isWall
    have fixed := wallFacts_fixed isWall
    have apart : ∀ relation ∈ [Relation.wallLeft, Relation.wallTop], relation ≠ Relation.grid ∧
        relation ∈ fixedRelations kind := by simp [fixedRelations, Relation.wallLeft, Relation.wallTop, Relation.grid]
    exact ⟨(apart _ fixed).1, named.apart (apart _ fixed).2⟩
  · intro fact joins
    rw [Board.adjacencyFacts_relation joins]
    exact ⟨by cases kind <;> decide, named.apart (by simp [fixedRelations])⟩

theorem spreadFacts_relation {fact : Fact} (given : spreadFacts board color kind includeSelf fact) :
    fact.relation ∈ fixedRelations kind ∨ ∃ own, color = some own ∧ fact.relation = own.name := by
  rcases given with ((isGrid | isColor) | isWall) | joins
  · exact .inl (by simp [fixedRelations, Board.gridFacts_relation isGrid])
  · cases color with
    | none => cases isColor
    | some own => exact .inr ⟨own, rfl, Board.colorFacts_relation isColor⟩
  · rcases Board.wallFacts_relation isWall with same | same <;> exact .inl (by simp [fixedRelations, same])
  · exact .inl (by simp [fixedRelations, Board.adjacencyFacts_relation joins])

theorem spreadFacts_neighbors (named : Named color kind) (fact : Fact) (same : fact.relation = kind.relation) :
    spreadFacts board color kind includeSelf fact ↔ board.adjacencyFacts kind includeSelf fact := by
  apply or_iff_right
  intro others
  rcases others with (isGrid | isColor) | isWall
  · rw [Board.gridFacts_relation isGrid] at same
    exact absurd same (by cases kind <;> decide)
  · cases color with
    | none => cases isColor
    | some own =>
      rw [Board.colorFacts_relation isColor] at same
      exact named.apart (by simp [fixedRelations]) own rfl same
  · have apart : ∀ relation ∈ [Relation.wallLeft, Relation.wallTop], relation ≠ kind.relation := by
      cases kind <;> decide
    exact apart _ (wallFacts_fixed isWall) same

theorem spreadFacts_apart {words : List String} {fact : Fact}
    (given : spreadFacts board color kind includeSelf fact) : spreadLabel words kind color ≠ fact.relation := by
  rcases spreadFacts_relation given with fixed | ⟨own, rfl, same⟩
  · exact spreadLabel_ne_fixed fixed
  · exact same ▸ spreadLabel_ne_name

/-- The program derives none of the relations that the facts are stated in. -/
structure Spares (program : Program) (color : Option Color) (kind : Adjacency) : Prop where
  fixed : ∀ relation ∈ fixedRelations kind, ¬ program.Defines relation
  name : ∀ own, color = some own → ¬ program.Defines own.name

namespace Spares

theorem of_spreadLabel {program : Program} {words : List String}
    (defines : ∀ relation, program.Defines relation → relation = spreadLabel words kind color) :
    Spares program color kind := by
  refine ⟨fun relation fixed defined => spreadLabel_ne_fixed fixed (defines relation defined).symm, ?_⟩
  intro own chosen defined
  subst chosen
  exact spreadLabel_ne_name (defines own.name defined).symm

variable {program : Program} (spares : Spares program color kind) (named : Named color kind)
  (model : program.Model (spreadFacts board color kind includeSelf) world)
include spares

/-- Rules that look at the color of cells, and otherwise only for what holds, have one model. -/
theorem existsUnique_model (bodies : ∀ head body, .rule head body ∈ program.statements → ∀ literal ∈ body,
      (∃ atom, literal = .holds atom) ∨ literal ∈ inColor color ∨ literal.relations = []) (given : World) :
    ∃! world, program.Model given world := by
  refine Program.existsUnique_model_of_lower (color.elim [] fun own => [own.name]) ?_ ?_ given
  · intro relation lower
    cases color with
    | none => cases lower
    | some own => exact List.mem_singleton.mp lower ▸ spares.name own rfl
  · intro head body statement literal member negative relation looked
    rcases bodies head body statement literal member with ⟨atom, rfl⟩ | inside | none
    · exact absurd rfl (negative atom)
    · obtain ⟨own, rfl, rfl⟩ := inColor_relations inside negative looked
      exact List.mem_singleton_self own.name
    · exact absurd (none ▸ looked) List.not_mem_nil

include model

theorem iff_given {fact : Fact} (fixed : fact.relation ∈ fixedRelations kind) :
    world fact ↔ spreadFacts board color kind includeSelf fact :=
  model.iff_given (spares.fixed _ fixed)

include named

theorem shows : world.Shows board color :=
  (spreadFacts_shows named).of_model model (spares.fixed _ (by simp [fixedRelations])) spares.name

theorem neighbors (fact : Fact) (same : fact.relation = kind.relation) :
    world fact ↔ board.adjacencyFacts kind includeSelf fact := by
  rw [spares.iff_given model (by simp [fixedRelations, same]), spreadFacts_neighbors named fact same]

theorem walls (fact : Fact) (same : fact.relation = Relation.wallLeft ∨ fact.relation = Relation.wallTop) :
    world fact ↔ board.wallFacts fact := by
  have fixed : fact.relation ∈ fixedRelations kind := by
    rcases same with same | same <;> simp [fixedRelations, same]
  have apart : fact.relation ≠ Relation.grid ∧ fact.relation ≠ kind.relation := by
    rcases same with same | same <;> rw [same] <;> cases kind <;> decide
  rw [spares.iff_given model fixed]
  refine (or_iff_left fun joins => ?_).trans (or_iff_right fun others => ?_)
  · exact apart.2 (Board.adjacencyFacts_relation joins)
  · rcases others with isGrid | isColor
    · exact apart.1 (Board.gridFacts_relation isGrid)
    · cases color with
      | none => cases isColor
      | some own => exact named.apart fixed own rfl (Board.colorFacts_relation isColor).symm

end Spares

theorem reachFromAll_spares : Spares (reachFromAll clues color kind) color kind :=
  .of_spreadLabel fun _ => defines_reachFromAll

def Marked (world : World) (color : Option Color) (kind : Adjacency) (source cell : Cell) : Prop :=
  world (.pair (sourceLabel color kind) source.row.val source.col.val cell.row.val cell.col.val)

/-- The cell is the source, or shaded cells lead to it from one beside the source. -/
def Spread (board : Board) (kind : Adjacency) (source cell : Cell) : Prop :=
  cell = source ∨ ∃ next, board.isShaded next = true ∧ board.adjacent source next kind = .ok true ∧
    board.Joined kind next cell

theorem Spread.step (fixed : kind.Fixed) {source cell next : Cell}
    (spread : Spread (board.tinted color) kind source cell)
    (shaded : (board.tinted color).isShaded next = true)
    (beside : board.adjacent next cell kind = .ok true ∨
      includeSelf = true ∧ next = cell ∧ board.contains next = true) :
    Spread (board.tinted color) kind source next := by
  rcases beside with adjacent | ⟨_, rfl, _⟩
  · have back := Board.adjacent_symm fixed adjacent
    rw [← Board.adjacent_tinted color] at back
    rcases spread with rfl | ⟨first, shadedFirst, start, joined⟩
    · exact .inr ⟨next, shaded, back, .refl⟩
    · exact .inr ⟨first, shadedFirst, start, joined.tail ⟨joined.isShaded shadedFirst, shaded, back⟩⟩
  · exact spread

theorem of_denotes {binding : Binding} {label : String} {source source' cell : Cell}
    {place : Place} {row col : Value} (stand : StandAll binding place.args [row, col])
    (denoted : (reaches label (.ofCell source) place).Denotes binding
      (.pair label source'.row.val source'.col.val cell.row.val cell.col.val)) :
    source' = source ∧ row = .num cell.row.val ∧ col = .num cell.col.val := by
  have all : StandAll binding ((Place.ofCell source).args ++ place.args)
      [.num source.row.val, .num source.col.val, row, col] :=
    .cons (Term.stands_int _) (.cons (Term.stands_int _) stand)
  have same := (Atom.denotes_iff all).mp denoted
  simp only [Fact.pair, Fact.mk.injEq, List.cons.injEq, Value.num.injEq, and_true, true_and] at same
  exact ⟨Cell.ext same.1 same.2.1, same.2.2.1.symm, same.2.2.2.symm⟩

section Marks

variable (fixed : kind.Fixed) (shows : world.Shows board color)
  (neighbors : ∀ fact : Fact, fact.relation = kind.relation →
    (world fact ↔ board.adjacencyFacts kind includeSelf fact))
  (model : (reachFromAll clues color kind).Model (spreadFacts board color kind includeSelf) world)
include model

private theorem marked_source {clue : Clue} (member : clue ∈ clues) :
    Marked world color kind clue.source clue.source := by
  refine (model.iff_supported _).mpr (.inr (.inl ⟨_, fact_mem_reachFromAll.mpr ⟨clue, member, rfl⟩,
    fun _ => .inf, ?_⟩))
  exact (pair_denotes (Place.ofCell_stands _) (Place.ofCell_stands _)).mpr rfl

include shows neighbors

private theorem marked_step {clue : Clue} (member : clue ∈ clues) {cell next : Cell}
    (marked : Marked world color kind clue.source cell) (shaded : (board.tinted color).isShaded next = true)
    (adjacent : board.adjacent next cell kind = .ok true) : Marked world color kind clue.source next := by
  obtain ⟨binding, here, other⟩ :=
    Place.exists_here_other next.row.val next.col.val cell.row.val cell.col.val
  have source : (Place.ofCell clue.source).Stands binding _ _ := Place.ofCell_stands clue.source
  have joins := (neighbors _ rfl).mpr (Board.adjacencyFacts_pair.mpr (.inl adjacent))
  refine (model.iff_supported _).mpr (.inr (.inr ⟨_, _, rule_mem_reachFromAll.mpr ⟨clue, member, rfl, rfl⟩,
    binding, (pair_denotes source here.stands).mpr rfl, ?_⟩))
  refine List.forall_mem_append.mpr ⟨List.forall_mem_cons.mpr ⟨?_, ?_⟩, List.forall_mem_singleton.mpr ?_⟩
  · exact (holds_pair source other.stands).mpr marked
  · exact (shows.inColor_holds here).mpr (Board.shades_cell.mpr shaded)
  · exact (holds_pair here.stands other.stands).mpr joins

include fixed

private theorem marked_of_spread {clue : Clue} (member : clue ∈ clues) {cell : Cell}
    (spread : Spread (board.tinted color) kind clue.source cell) :
    Marked world color kind clue.source cell := by
  rcases spread with rfl | ⟨next, shaded, adjacent, joined⟩
  · exact marked_source model member
  · have first : Marked world color kind clue.source next := by
      apply marked_step shows neighbors model member (marked_source model member) shaded
      rw [Board.adjacent_tinted] at adjacent
      exact Board.adjacent_symm fixed adjacent
    induction joined with
    | refl => exact first
    | tail _ linked ih =>
      have back := Board.adjacent_symm fixed linked.2.2
      rw [Board.adjacent_tinted] at back
      exact marked_step shows neighbors model member ih linked.2.1 back

private theorem spread_of_label (apart : ∀ fact, spreadFacts board color kind includeSelf fact →
      sourceLabel color kind ≠ fact.relation) (fact : Fact) (holds : world fact)
    (labelled : fact.relation = sourceLabel color kind) :
    ∃ clue ∈ clues, ∃ cell, Spread (board.tinted color) kind clue.source cell ∧
      fact = .pair (sourceLabel color kind) clue.source.row.val clue.source.col.val cell.row.val
        cell.col.val := by
  revert labelled
  -- by induction on derivations: the rule passes from a marked cell to one linked with it
  refine model.induction (fun fact => fact.relation = sourceLabel color kind → ∃ clue ∈ clues, ∃ cell,
    Spread (board.tinted color) kind clue.source cell ∧ fact = .pair (sourceLabel color kind)
      clue.source.row.val clue.source.col.val cell.row.val cell.col.val) ?_ ?_ ?_ fact holds
  · intro fact given labelled
    exact absurd labelled.symm (apart fact given)
  · intro atom statement binding fact denoted _
    obtain ⟨clue, member, rfl⟩ := fact_mem_reachFromAll.mp statement
    exact ⟨clue, member, clue.source, .inl rfl,
      (pair_denotes (Place.ofCell_stands _) (Place.ofCell_stands _)).mp denoted⟩
  · intro head body statement binding met before fact denoted _
    obtain ⟨clue, member, rfl, rfl⟩ := rule_mem_reachFromAll.mp statement
    rw [List.forall_mem_append, List.forall_mem_cons] at met
    obtain ⟨premise, premiseDenoted, _, earlier⟩ := before _ (List.mem_append_left _ List.mem_cons_self)
    obtain ⟨clue', _, cell, spread, same⟩ := earlier premiseDenoted.1
    obtain ⟨sameSource, other⟩ := of_denotes (other_args binding) (same ▸ premiseDenoted)
    rw [sameSource] at spread
    obtain ⟨row, col, _, here⟩ := shows.onGrid_here.mp (met.1.2 _ List.mem_cons_self)
    obtain ⟨next, shaded, rfl, rfl⟩ := (shows.inColor_holds here).mp met.1.2
    have joins := (holds_pair here.stands (Place.Other.stands other)).mp (met.2 _ (List.mem_singleton_self _))
    have beside := Board.adjacencyFacts_pair.mp ((neighbors _ rfl).mp joins)
    exact ⟨clue, member, next, spread.step fixed shaded beside,
      (pair_denotes (Place.ofCell_stands _) here.stands).mp denoted⟩

end Marks

private theorem fixed_holds {label : String} {source cell : Cell} {binding : Binding} :
    (Test.holds (reaches label (.ofCell source) (.ofCell cell))).Holds world binding ↔
      world (.pair label source.row.val source.col.val cell.row.val cell.col.val) :=
  holds_pair (Place.ofCell_stands source) (Place.ofCell_stands cell)

private theorem fixed_fails {label : String} {source cell : Cell} {binding : Binding} :
    (Test.fails (reaches label (.ofCell source) (.ofCell cell))).Holds world binding ↔
      ¬ world (.pair label source.row.val source.col.val cell.row.val cell.col.val) :=
  fails_pair (Place.ofCell_stands source) (Place.ofCell_stands cell)

section Constraints

variable (walls : ∀ fact : Fact, fact.relation = Relation.wallLeft ∨ fact.relation = Relation.wallTop →
    (world fact ↔ board.wallFacts fact))
  (labels : ∀ fact : Fact, world fact → fact.relation = sourceLabel color kind →
    ∃ source cell : Cell, fact =
      .pair (sourceLabel color kind) source.row.val source.col.val cell.row.val cell.col.val)
include walls labels

/-- A wall between two marked cells breaks a constraint, and nothing else breaks it. -/
private theorem sealed_iff (source : Cell) :
    (∃ place ∈ Board.wallSides, ∃ binding,
      (Test.holds (reaches (sourceLabel color kind) (.ofCell source) .here)).Holds world binding ∧
      (Test.holds (reaches (sourceLabel color kind) (.ofCell source)
        (Place.here.step place.1.offset))).Holds world binding ∧
      (Test.holds (.cell place.2 (Place.here.step place.1.offset))).Holds world binding) ↔
    ∃ a b, Marked world color kind source a ∧ Marked world color kind source b ∧
      Adjacency.side.Near a b ∧ board.isWalled a b = true := by
  have wall_iff {place : Side × String} (member : place ∈ Board.wallSides) {a b : Cell}
      (beside : place.1.neighbor a = .ok b) :
      world (.cell place.2 b.row.val b.col.val) ↔ board.isWalled a b = true := by
    rw [walls _ (by rcases List.mem_pair.mp member with rfl | rfl <;> simp)]
    exact Board.wallFacts_cell member beside
  apply Iff.intro
  · intro broken
    obtain ⟨place, member, binding, ⟨first, denoted, holds⟩, second, wall⟩ := broken
    obtain ⟨source', a, rfl⟩ := labels first holds denoted.1
    obtain ⟨rfl, here⟩ := of_denotes (here_args binding) denoted
    have next := Place.Here.step_stands here place.1.offset
    have marked := (holds_pair (Place.ofCell_stands source') next).mp second
    obtain ⟨source, b, same⟩ := labels _ marked rfl
    obtain ⟨_, rows, cols, rows', cols'⟩ := Fact.pair_inj.mp same
    have beside : place.1.neighbor a = .ok b := Cell.shift_eq_ok.mpr ⟨rows'.symm, cols'.symm⟩
    have wallHolds := (holds_cell next).mp wall
    rw [rows', cols'] at marked wallHolds
    exact ⟨a, b, holds, marked, Board.near_of_neighbor member beside, (wall_iff member beside).mp wallHolds⟩
  · intro between
    obtain ⟨a, b, markedA, markedB, near, walled⟩ := between
    have broken {place : Side × String} (member : place ∈ Board.wallSides) {a b : Cell}
        (beside : place.1.neighbor a = .ok b) (markedA : Marked world color kind source a)
        (markedB : Marked world color kind source b) (walled : board.isWalled a b = true) :
        ∃ binding, (Test.holds (reaches (sourceLabel color kind) (.ofCell source) .here)).Holds world binding ∧
          (Test.holds (reaches (sourceLabel color kind) (.ofCell source)
            (Place.here.step place.1.offset))).Holds world binding ∧
          (Test.holds (.cell place.2 (Place.here.step place.1.offset))).Holds world binding := by
      obtain ⟨binding, here⟩ := Place.exists_here a.row.val a.col.val
      have moved := Cell.shift_eq_ok.mp beside
      have next := here.step_stands place.1.offset
      rw [← moved.1, ← moved.2] at next
      exact ⟨binding, (holds_pair (Place.ofCell_stands source) here.stands).mpr markedA,
        (holds_pair (Place.ofCell_stands source) next).mpr markedB,
        (holds_cell next).mpr ((wall_iff member beside).mpr walled)⟩
    obtain ⟨place, member, beside | beside⟩ := Board.neighbor_of_near near
    · exact ⟨place, member, broken member beside markedA markedB walled⟩
    · rw [Board.isWalled_symm] at walled
      exact ⟨place, member, broken member beside markedB markedA walled⟩

theorem violated_reachFromAll : (reachFromAll clues color kind).Violated world ↔ ∃ clue ∈ clues,
    (∃ cell ∈ clue.required, ¬ Marked world color kind clue.source cell) ∨
    (∃ cell ∈ clue.forbidden, Marked world color kind clue.source cell) ∨
    kind = .walled ∧ ∃ a b, Marked world color kind clue.source a ∧ Marked world color kind clue.source b ∧
      Adjacency.side.Near a b ∧ board.isWalled a b = true := by
  apply Iff.intro
  · intro violated
    obtain ⟨body, statement, binding, met⟩ := violated
    obtain ⟨clue, member, ⟨cell, listed, rfl⟩ | ⟨cell, listed, rfl⟩ | ⟨walled, place, side, rfl⟩⟩ :=
      constraint_mem_reachFromAll.mp statement
    · exact ⟨clue, member, .inl ⟨cell, listed, fixed_fails.mp (met _ List.mem_cons_self)⟩⟩
    · exact ⟨clue, member, .inr (.inl ⟨cell, listed, fixed_holds.mp (met _ List.mem_cons_self)⟩)⟩
    · rw [List.forall_mem_cons, List.forall_mem_cons, List.forall_mem_singleton] at met
      refine ⟨clue, member, .inr (.inr ⟨walled, ?_⟩)⟩
      exact (sealed_iff walls labels clue.source).mp ⟨place, side, binding, met⟩
  · intro broken
    obtain ⟨clue, member, ⟨cell, listed, unmarked⟩ | ⟨cell, listed, marked⟩ | ⟨walled, between⟩⟩ := broken
    · refine ⟨_, constraint_mem_reachFromAll.mpr ⟨clue, member, .inl ⟨cell, listed, rfl⟩⟩, fun _ => .inf, ?_⟩
      exact List.forall_mem_singleton.mpr (fixed_fails.mpr unmarked)
    · refine ⟨_, constraint_mem_reachFromAll.mpr ⟨clue, member, .inr (.inl ⟨cell, listed, rfl⟩)⟩,
        fun _ => .inf, ?_⟩
      exact List.forall_mem_singleton.mpr (fixed_holds.mpr marked)
    · obtain ⟨place, side, binding, met⟩ := (sealed_iff walls labels clue.source).mpr between
      refine ⟨_, constraint_mem_reachFromAll.mpr ⟨clue, member, .inr (.inr ⟨walled, place, side, rfl⟩)⟩,
        binding, ?_⟩
      rw [List.forall_mem_cons, List.forall_mem_cons, List.forall_mem_singleton]
      exact met

end Constraints

private theorem spread_iff_joined {source cell : Cell} (shaded : board.isShaded source = true) :
    Spread board kind source cell ↔ board.Joined kind source cell := by
  apply Iff.intro
  · intro spread
    rcases spread with rfl | ⟨next, shadedNext, adjacent, joined⟩
    · exact .refl
    · exact .head ⟨shaded, shadedNext, adjacent⟩ joined
  · intro joined
    rcases Relation.ReflTransGen.cases_head joined with rfl | ⟨next, linked, joined⟩
    · exact .inl rfl
    · exact .inr ⟨next, linked.2.1, linked.2.2, joined⟩

theorem existsUnique_reachFromAll (given : World) :
    ∃! world, (reachFromAll clues color kind).Model given world := by
  refine reachFromAll_spares.existsUnique_model (fun head body statement literal member => ?_) given
  obtain ⟨clue, _, _, rfl⟩ := rule_mem_reachFromAll.mp statement
  rw [List.mem_append, List.mem_cons, List.mem_singleton] at member
  rcases member with (rfl | inside) | rfl
  · exact .inl ⟨_, rfl⟩
  · exact .inr (.inl inside)
  · exact .inl ⟨_, rfl⟩

/-- For any number of sources at once, the rules have one model. It marks for each source that cell and
all that the board reaches from the shaded cells beside it, and a constraint is broken exactly if some
source misses a required cell, reaches a forbidden one, or marks both sides of a wall that stops it. -/
theorem reachFromAll_agree (board : Board) (color : Option Color) (kind : Adjacency) (includeSelf : Bool)
    (clues : List Clue) (fixed : kind.Fixed) (named : Named color kind) :
    (∃! world, (reachFromAll clues color kind).Model (spreadFacts board color kind includeSelf) world) ∧
      (board.Bounded → ∃ reached : Cell → List Cell,
        ∀ cell, (board.tinted color).reachable cell kind = .ok (reached cell)) ∧
      ∀ world, (reachFromAll clues color kind).Model (spreadFacts board color kind includeSelf) world →
        (∀ fact : Fact, world fact → fact.relation = sourceLabel color kind → ∃ clue ∈ clues, ∃ cell : Cell,
          fact = .pair (sourceLabel color kind) clue.source.row.val clue.source.col.val cell.row.val
            cell.col.val) ∧
        (∀ reached : Cell → List Cell, (∀ cell, (board.tinted color).reachable cell kind = .ok (reached cell)) →
          ∀ clue ∈ clues,
            (∀ cell, Marked world color kind clue.source cell ↔ cell = clue.source ∨
              ∃ next, (board.tinted color).isShaded next = true ∧
                (board.tinted color).adjacent clue.source next kind = .ok true ∧ cell ∈ reached next) ∧
            ((board.tinted color).isShaded clue.source = true →
              ∀ cell, Marked world color kind clue.source cell ↔ cell ∈ reached clue.source)) ∧
        ((reachFromAll clues color kind).Violated world ↔ ∃ clue ∈ clues,
          (∃ cell ∈ clue.required, ¬ Marked world color kind clue.source cell) ∨
          (∃ cell ∈ clue.forbidden, Marked world color kind clue.source cell) ∨
          kind = .walled ∧ ∃ a b, Marked world color kind clue.source a ∧
            Marked world color kind clue.source b ∧ Adjacency.side.Near a b ∧ board.isWalled a b = true) := by
  refine ⟨existsUnique_reachFromAll _, fun bounded => ?_, fun world model => ?_⟩
  · choose reached found _ using (Board.bounded_tinted bounded color).reachable_ok fixed
    exact ⟨reached, found⟩
  have shows := reachFromAll_spares.shows named model
  have neighbors := reachFromAll_spares.neighbors named model
  have labels := spread_of_label fixed shows neighbors model fun fact => spreadFacts_apart
  have marked_iff : ∀ clue ∈ clues, ∀ cell, Marked world color kind clue.source cell ↔
      Spread (board.tinted color) kind clue.source cell := by
    refine fun clue member cell => ⟨fun marked => ?_, marked_of_spread fixed shows neighbors model member⟩
    obtain ⟨clue', _, cell', spread, same⟩ := labels _ marked rfl
    obtain ⟨_, rows, cols, rows', cols'⟩ := Fact.pair_inj.mp same
    rw [← Cell.ext rows cols, ← Cell.ext rows' cols'] at spread
    exact spread
  refine ⟨?_, fun reached found clue member => ⟨fun cell => ?_, fun shaded cell => ?_⟩, ?_⟩
  · intro fact holds labelled
    obtain ⟨clue, member, cell, _, same⟩ := labels fact holds labelled
    exact ⟨clue, member, cell, same⟩
  · rw [marked_iff clue member]
    refine or_congr_right (exists_congr fun next => ?_)
    rw [Board.mem_reachable fixed (found next)]
    tauto
  · rw [marked_iff clue member, spread_iff_joined shaded, Board.mem_reachable fixed (found clue.source),
      and_iff_right shaded]
  · apply violated_reachFromAll (reachFromAll_spares.walls named model)
    intro fact holds labelled
    obtain ⟨clue, _, cell, _, same⟩ := labels fact holds labelled
    exact ⟨clue.source, cell, same⟩

def partedBoard : Board := (Board.ofShading 1 2 (by decide) fun _ _ => true).addWall (.of 0 0) (.of 0 1)

def partedClues : List Clue := [⟨.of 0 0, [.of 0 1], []⟩, ⟨.of 0 1, [], []⟩]

theorem reachFromAll_agree_parted : ∃ world,
    (reachFromAll partedClues (some (.positive "black")) .walled).Model
      (spreadFacts partedBoard (some (.positive "black")) .walled true) world ∧
    (reachFromAll partedClues (some (.positive "black")) .walled).Violated world := by
  have named : Named (some (.positive "black")) .walled := by
    intro own chosen
    cases chosen
    decide
  obtain ⟨⟨world, model, _⟩, reached_of_bounded, agree⟩ := reachFromAll_agree partedBoard
    (some (.positive "black")) .walled true partedClues ⟨nofun, nofun⟩ named
  obtain ⟨reached, found⟩ := reached_of_bounded ⟨by decide, by decide⟩
  obtain ⟨_, marked_iff, violated_iff⟩ := agree world model
  have alone : partedBoard.reachable (.of 0 0) .walled = .ok [.of 0 0] := by decide +kernel
  have same : reached (.of 0 0) = [.of 0 0] := Except.ok.inj ((found _).symm.trans alone)
  refine ⟨world, model, violated_iff.mpr ⟨⟨.of 0 0, [.of 0 1], []⟩, List.mem_cons_self, .inl ?_⟩⟩
  refine ⟨.of 0 1, List.mem_cons_self, fun marked => ?_⟩
  have member := ((marked_iff reached found _ List.mem_cons_self).2 (by decide) _).mp marked
  rw [same] at member
  exact absurd member (by decide)

end GridPuzzle.Template
