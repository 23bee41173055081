import GridPuzzle.Proofs.Template.Piece

/-!
What registered shapes detect. The detector holds of the occurrences that a search of the board finds, the
covering relation of the cells under them, and the constraint that all cells of the color are covered is
kept exactly if the occurrences cover them.
-/
namespace GridPuzzle.Template

namespace Piece

variable {name : String} {color : Color} {board : Board}

def pieceFacts (board : Board) (color : Color) (pieces : List Piece) (includeSelf : Adjacency → Bool) : World :=
  (board.gridFacts.join (board.colorFacts color.name)).join
    fun fact => ∃ piece ∈ pieces, board.adjacencyFacts piece.kind (includeSelf piece.kind) fact

variable {pieces : List Piece} {includeSelf : Adjacency → Bool} {fact : Fact}

def NamedApart (color : Color) (pieces : List Piece) : Prop :=
  color.name ≠ Relation.grid ∧ ∀ piece ∈ pieces, color.name ≠ piece.kind.relation

/-- The given facts show the board with the color and the neighbors by the kinds of the shapes, and have
no label of the rules. -/
structure Gives (given : World) (board : Board) (color : Color) (pieces : List Piece)
    (includeSelf : Adjacency → Bool) : Prop where
  shows : given.Shows board (some color)
  joins : ∀ piece ∈ pieces, ∀ fact : Fact, fact.relation = piece.kind.relation →
    (given fact ↔ board.adjacencyFacts piece.kind (includeSelf piece.kind) fact)
  plain : ∀ fact, given fact → Given color fact.relation

private theorem grid_ne_relation (kind : Adjacency) : Relation.grid ≠ kind.relation := by
  cases kind <;> decide

theorem gives_pieceFacts (named : NamedApart color pieces) :
    Gives (pieceFacts board color pieces includeSelf) board color pieces includeSelf := by
  have base : World.Shows (board.gridFacts.join (board.colorFacts color.name)) board (some color) := by
    apply World.Shows.of_board (some color)
    intro own chosen
    cases chosen
    exact named.1
  refine ⟨base.join fun fact joins => ?_, fun piece member fact same => ?_, fun fact given => ?_⟩
  · obtain ⟨piece, member, joins⟩ := joins
    rw [Board.adjacencyFacts_relation joins]
    refine ⟨(grid_ne_relation piece.kind).symm, fun own chosen => ?_⟩
    cases chosen
    exact named.2 piece member
  · refine ⟨fun given => ?_, fun joins => .inr ⟨piece, member, joins⟩⟩
    rcases given with (isGrid | isColor) | ⟨other, _, joins⟩
    · exact absurd ((Board.gridFacts_relation isGrid).symm.trans same) (grid_ne_relation piece.kind)
    · exact absurd ((Board.colorFacts_relation isColor).symm.trans same) (named.2 piece member)
    · rwa [relation_injective ((Board.adjacencyFacts_relation joins).symm.trans same)] at joins
  · rcases given with (isGrid | isColor) | ⟨piece, _, joins⟩
    · exact .inl (.inl (Board.gridFacts_relation isGrid))
    · exact .inr (.inl (Board.colorFacts_relation isColor))
    · exact .inr (.inr ⟨piece.kind, Board.adjacencyFacts_relation joins⟩)

/-- The values that an atom of the scope has before its other ones. -/
def key (scope : Scope) (binding : Binding) : List Value :=
  match scope with
  | .grid => []
  | .area => [binding "A"]

section Atoms

variable {piece : Piece} {index : Nat} {shape : Polyomino} {scope : Scope} {relation : String} {binding : Binding}

theorem keyed_denotes (oriented : piece.Oriented index shape) {place : Place} {row col : Value}
    (stand : StandAll binding place.args [row, col]) :
    ((piece.entry name color scope).keyed relation place index).Denotes binding fact ↔
      fact = ⟨relation, key scope binding ++ [row, col, .num piece.id, .num index]⟩ := by
  have number : (Term.ofNat index).Stands binding (.num index) :=
    oriented.signed64_index ▸ Term.stands_int (signed64 index)
  have args : StandAll binding (place.args ++ [.int piece.id, .ofNat index])
      ([row, col] ++ [.num piece.id, .num index]) :=
    List.rel_append stand (.cons (Term.stands_int piece.id) (.cons number .nil))
  cases scope with
  | grid => exact Atom.denotes_iff args
  | area => exact Atom.denotes_iff (.cons (Term.stands_var "A") args)

end Atoms

section Model

variable {given : World} {scope : Scope} {program : Program} {world : World}
  (ruled : ∀ piece ∈ pieces, piece.Ruled name color scope)
  (registered : ∀ statement, statement ∈ program.statements ↔ Registers name color scope pieces statement)
  (gives : Gives given board color pieces includeSelf) (model : program.Model given world)
include registered gives model

theorem world_label (label : fact.relation ∈ labels name color scope) :
    world fact ↔ ∃ head body, .rule head body ∈ program.statements ∧ ∃ binding, head.Denotes binding fact ∧
      ∀ literal ∈ body, literal.Holds world (Program.ruleScope head body) binding := by
  rw [model.iff_supported, or_iff_right, or_iff_right]
  · intro stated
    obtain ⟨atom, statement, _⟩ := stated
    exact no_fact registered atom statement
  · exact fun isGiven => (gives.plain fact isGiven).notMem_labels name scope label

theorem shows_of_model : world.Shows board (some color) := by
  refine gives.shows.of_model model (notDefines registered (.inl (.inl rfl))) ?_
  intro own chosen
  cases chosen
  exact notDefines registered (.inr (.inl rfl))

include ruled

private theorem touch_iff {piece : Piece} (member : piece ∈ pieces) (strict : piece.loose = false)
    {row col row' col' : Int} : world (.pair (touching name color piece.kind) row col row' col') ↔
      world (.pair piece.kind.relation row col row' col') ∧ color.Matches world row' col' := by
  rw [world_label registered gives model (mem_labels.mpr (.inr (.inr ⟨piece.kind, rfl⟩)))]
  apply Iff.intro
  · intro supported
    obtain ⟨head, body, statement, binding, denoted, holds⟩ := supported
    obtain ⟨other, _, _, ⟨_, rfl, rfl⟩ | ⟨index, shape, linked, outer, _, _, ⟨rfl, _⟩ | ⟨own, _, rfl, _⟩⟩⟩ :=
      (rule_iff registered).mp statement
    · obtain ⟨same, here, there⟩ := here_other_denotes_pair.mp denoted
      rw [← touching_injective name color same, List.forall_mem_cons, List.forall_mem_singleton] at holds
      exact ⟨(holds_pair here.stands there.stands).mp holds.1, (holds_on color there.stands).mp holds.2⟩
    · exact absurd (denoted.1.trans (Registration.root_relation _ _)) (touching_ne_detector piece.kind)
    · exact absurd (denoted.1.trans (Registration.keyed_relation _ _ _ _)) (touching_ne_covering piece.kind)
  · intro both
    obtain ⟨binding, here, there⟩ := Place.exists_here_other row col row' col'
    refine ⟨_, _, (rule_iff registered).mpr ⟨piece, member, (ruled piece member).turns, .inl ⟨strict, rfl, rfl⟩⟩,
      binding, ?_, ?_⟩
    · exact here_other_denotes_pair.mpr ⟨rfl, here, there⟩
    · rw [List.forall_mem_cons, List.forall_mem_singleton]
      exact ⟨(holds_pair here.stands there.stands).mpr both.1, (holds_on color there.stands).mpr both.2⟩

/-- The detector holds where the body for one of the orientations does. -/
theorem detector_supported (label : fact.relation = detector name color scope) :
    world fact ↔ ∃ piece ∈ pieces, ∃ index shape linked outer, piece.Oriented index shape ∧
      (piece.entry name color scope).Surveyed shape linked outer ∧ ∃ binding,
      ((piece.entry name color scope).root index).Denotes binding fact ∧
      ∀ literal ∈ (piece.entry name color scope).body shape linked outer, literal.Holds world
        (Program.ruleScope ((piece.entry name color scope).root index)
          ((piece.entry name color scope).body shape linked outer)) binding := by
  rw [world_label registered gives model (mem_labels.mpr (.inl label))]
  apply Iff.intro
  · intro supported
    obtain ⟨head, body, statement, binding, denoted, holds⟩ := supported
    obtain ⟨piece, member, _, ⟨_, rfl, _⟩ | ⟨index, shape, linked, outer, oriented, surveyed, ⟨rfl, rfl⟩ |
      ⟨own, _, rfl, _⟩⟩⟩ := (rule_iff registered).mp statement
    · exact absurd (denoted.1.symm.trans label) (touching_ne_detector piece.kind)
    · exact ⟨piece, member, index, shape, linked, outer, oriented, surveyed, binding, denoted, holds⟩
    · exact absurd (label.symm.trans (denoted.1.trans (Registration.keyed_relation _ _ _ _))) detector_ne_covering
  · intro met
    obtain ⟨piece, member, index, shape, linked, outer, oriented, surveyed, binding, denoted, holds⟩ := met
    exact ⟨_, _, (rule_iff registered).mpr ⟨piece, member, (ruled piece member).turns,
      .inr ⟨index, shape, linked, outer, oriented, surveyed, .inl ⟨rfl, rfl⟩⟩⟩, binding, denoted, holds⟩

/-- The covering relation holds of the cells of what is detected. -/
theorem covering_supported (label : fact.relation = covering name color scope) :
    world fact ↔ ∃ piece ∈ pieces, ∃ index shape, piece.Oriented index shape ∧ ∃ own ∈ shape.cells, ∃ binding,
      ((piece.entry name color scope).keyed (covering name color scope) (Place.here.step own) index).Denotes
        binding fact ∧
      world ⟨detector name color scope,
        key scope binding ++ [binding "R", binding "C", .num piece.id, .num index]⟩ := by
  rw [world_label registered gives model (mem_labels.mpr (.inr (.inl label)))]
  apply Iff.intro
  · intro supported
    obtain ⟨head, body, statement, binding, denoted, holds⟩ := supported
    obtain ⟨piece, member, _, ⟨_, rfl, _⟩ | ⟨index, shape, linked, outer, oriented, _, ⟨rfl, _⟩ |
      ⟨own, inside, rfl, rfl⟩⟩⟩ := (rule_iff registered).mp statement
    · exact absurd (denoted.1.symm.trans label) (touching_ne_covering piece.kind)
    · exact absurd ((denoted.1.trans (Registration.root_relation _ _)).symm.trans label) detector_ne_covering
    · obtain ⟨root, rooted, inWorld⟩ := List.forall_mem_singleton.mp holds
      obtain rfl := (keyed_denotes oriented (here_args binding)).mp rooted
      exact ⟨piece, member, index, shape, oriented, own, inside, binding, denoted, inWorld⟩
  · intro met
    obtain ⟨piece, member, index, shape, oriented, own, inside, binding, denoted, inWorld⟩ := met
    obtain ⟨linked, outer, surveyed⟩ := (ruled piece member).surveyed index shape oriented
    refine ⟨_, _, (rule_iff registered).mpr ⟨piece, member, (ruled piece member).turns,
      .inr ⟨index, shape, linked, outer, oriented, surveyed, .inr ⟨own, inside, rfl, rfl⟩⟩⟩, binding, denoted, ?_⟩
    rw [List.forall_mem_singleton]
    exact ⟨_, (keyed_denotes oriented (here_args binding)).mpr rfl, inWorld⟩

theorem knows_of_model {piece : Piece} (member : piece ∈ pieces) :
    (piece.entry name color scope).Knows world board (includeSelf piece.kind) := by
  refine ⟨shows_of_model registered gives model, fun row col row' col' => ?_, fun strict _ _ _ _ => ?_⟩
  · rw [model.iff_given (notDefines registered (.inr (.inr ⟨piece.kind, rfl⟩)))]
    exact (gives.joins piece member _ rfl).trans Board.adjacencyFacts_adjoins
  · exact touch_iff ruled registered gives model member strict

end Model

/-- A shape with the number occurs at the row and column in the orientation with the other number. -/
def Detected (board : Board) (pieces : List Piece) (row col id : Int) (index : Nat) : Prop :=
  ∃ piece ∈ pieces, piece.id = id ∧ ∃ shape, piece.Oriented index shape ∧
    board.Occurs piece.kind piece.loose row col shape

section Grid

variable {given : World} {program : Program} {world : World}
  (ruled : ∀ piece ∈ pieces, piece.Ruled name color .grid)
  (registered : ∀ statement, statement ∈ program.statements ↔ Registers name color .grid pieces statement)
  (gives : Gives given board color pieces includeSelf) (model : program.Model given world)
  (fixed : ∀ piece ∈ pieces, piece.kind.Fixed)
include ruled registered gives model fixed

theorem detected_iff (label : fact.relation = detector name color .grid) :
    world fact ↔ ∃ row col id index, Detected (board.colored color) pieces row col id index ∧
      fact = .placed (detector name color .grid) row col id index := by
  rw [detector_supported ruled registered gives model label]
  apply Iff.intro
  · intro met
    obtain ⟨piece, member, index, shape, linked, outer, oriented, surveyed, binding, denoted, holds⟩ := met
    have knows := knows_of_model ruled registered gives model member
    obtain ⟨row, col, here⟩ := here_of_body knows.shows oriented.normal holds
    have occurs := (Registration.body_holds knows here (fixed piece member) rfl oriented.normal surveyed).mp holds
    exact ⟨row, col, piece.id, index, ⟨piece, member, rfl, shape, oriented, occurs⟩,
      (keyed_denotes oriented here.stands.args).mp denoted⟩
  · intro detected
    obtain ⟨row, col, id, index, ⟨piece, member, rfl, shape, oriented, occurs⟩, rfl⟩ := detected
    obtain ⟨linked, outer, surveyed⟩ := (ruled piece member).surveyed index shape oriented
    obtain ⟨binding, here⟩ := Place.exists_here row col
    have knows := knows_of_model ruled registered gives model member
    exact ⟨piece, member, index, shape, linked, outer, oriented, surveyed, binding,
      (keyed_denotes oriented here.stands.args).mpr rfl,
      (Registration.body_holds knows here (fixed piece member) rfl oriented.normal surveyed).mpr occurs⟩

private theorem covered_iff (label : fact.relation = covering name color .grid) :
    world fact ↔ ∃ row col id index, Detected (board.colored color) pieces row col id index ∧
      ∃ piece ∈ pieces, piece.id = id ∧ ∃ shape, piece.Oriented index shape ∧ ∃ own ∈ shape.cells,
        fact = .placed (covering name color .grid) (row + own.row.val) (col + own.col.val) id index := by
  have detected {fact : Fact} (label : fact.relation = detector name color .grid) :=
    detected_iff ruled registered gives model fixed label
  rw [covering_supported ruled registered gives model label]
  apply Iff.intro
  · intro met
    obtain ⟨piece, member, index, shape, oriented, own, inside, binding, denoted, inWorld⟩ := met
    obtain ⟨row, col, id, number, isDetected, same⟩ := (detected rfl).mp inWorld
    obtain ⟨isRow, isCol, rfl, rfl⟩ : binding "R" = .num row ∧ binding "C" = .num col ∧ piece.id = id ∧
        index = number := by
      simpa [key, Fact.placed] using congrArg Fact.values same
    have here : Place.Here binding row col := ⟨isRow, isCol⟩
    exact ⟨row, col, piece.id, index, isDetected, piece, member, rfl, shape, oriented, own, inside,
      (keyed_denotes oriented (here.step_stands own).args).mp denoted⟩
  · intro covered
    obtain ⟨row, col, id, index, isDetected, piece, member, rfl, shape, oriented, own, inside, rfl⟩ := covered
    obtain ⟨binding, here⟩ := Place.exists_here row col
    refine ⟨piece, member, index, shape, oriented, own, inside, binding,
      (keyed_denotes oriented (here.step_stands own).args).mpr rfl, (detected rfl).mpr ?_⟩
    rw [here.1, here.2]
    exact ⟨row, col, piece.id, index, isDetected, rfl⟩

end Grid

section Search

variable {found : Piece → List (Cell × Nat)}
  (searched : ∀ piece ∈ pieces, piece.occurrences (board.colored color) = .ok (found piece))
include searched

private theorem detected_iff_found {row col id : Int} {index : Nat} :
    Detected (board.colored color) pieces row col id index ↔ ∃ piece ∈ pieces, piece.id = id ∧
      ∃ root : Cell, (root, index) ∈ found piece ∧ root.row.val = row ∧ root.col.val = col := by
  refine exists_congr fun piece => and_congr_right fun member => and_congr_right fun _ => ?_
  simp only [mem_occurrences (searched piece member)]
  apply Iff.intro
  · intro detected
    obtain ⟨shape, oriented, occurs⟩ := detected
    obtain ⟨root, inside, rfl, rfl⟩ := occurs.covers oriented.normal
    exact ⟨root, ⟨inside, shape, oriented, occurs⟩, rfl, rfl⟩
  · intro listed
    obtain ⟨root, ⟨_, detected⟩, rfl, rfl⟩ := listed
    exact detected

/-- The detector holds of what the search finds, and of nothing else. -/
theorem detector_iff {program : Program} {world : World} (ruled : ∀ piece ∈ pieces, piece.Ruled name color .grid)
    (registered : ∀ statement, statement ∈ program.statements ↔ Registers name color .grid pieces statement)
    (model : program.Model (pieceFacts board color pieces includeSelf) world)
    (fixed : ∀ piece ∈ pieces, piece.kind.Fixed) (named : NamedApart color pieces)
    (label : fact.relation = detector name color .grid) :
    world fact ↔ ∃ piece ∈ pieces, ∃ root index, (root, index) ∈ found piece ∧
      fact = .placed (detector name color .grid) root.row.val root.col.val piece.id index := by
  rw [detected_iff ruled registered (gives_pieceFacts named) model fixed label]
  simp only [detected_iff_found searched]
  apply Iff.intro
  · intro detected
    obtain ⟨row, col, id, index, ⟨piece, member, rfl, root, listed, rfl, rfl⟩, same⟩ := detected
    exact ⟨piece, member, root, index, listed, same⟩
  · intro listed
    obtain ⟨piece, member, root, index, listed, same⟩ := listed
    exact ⟨_, _, _, index, ⟨piece, member, rfl, root, listed, rfl, rfl⟩, same⟩

/-- A number stands for one shape, so that what it detects is also what it covers. -/
private theorem covered_iff_found (fits : ∀ piece ∈ pieces, piece.Fits board)
    (distinct : ∀ first ∈ pieces, ∀ second ∈ pieces, first.id = second.id → first = second) :
    (∃ row col id index, Detected (board.colored color) pieces row col id index ∧
      ∃ piece ∈ pieces, piece.id = id ∧ ∃ shape, piece.Oriented index shape ∧ ∃ own ∈ shape.cells,
        fact = .placed (covering name color .grid) (row + own.row.val) (col + own.col.val) id index) ↔
    ∃ piece ∈ pieces, ∃ root index cell, (root, index) ∈ found piece ∧ piece.Covers root index cell ∧
      fact = .placed (covering name color .grid) cell.row.val cell.col.val piece.id index := by
  simp only [detected_iff_found searched]
  apply Iff.intro
  · intro covered
    obtain ⟨row, col, id, index, ⟨piece, member, rfl, root, listed, rfl, rfl⟩, other, otherMember, same,
      shape, oriented, own, inside, rfl⟩ := covered
    rw [distinct other otherMember piece member same] at oriented
    have onBoard := ((mem_occurrences (searched piece member)).mp listed).1
    rw [Board.contains_colored] at onBoard
    obtain ⟨cell, placed⟩ := ((fits piece member).placeable index shape oriented).placed root onBoard own inside
    have moved := Cell.shift_eq_ok.mp placed
    rw [← moved.1, ← moved.2]
    exact ⟨piece, member, root, index, cell, listed, ⟨shape, oriented, own, inside, placed⟩, rfl⟩
  · intro covered
    obtain ⟨piece, member, root, index, cell, listed, ⟨shape, oriented, own, inside, placed⟩, rfl⟩ := covered
    have moved := Cell.shift_eq_ok.mp placed
    rw [moved.1, moved.2]
    exact ⟨_, _, piece.id, index, ⟨piece, member, rfl, root, listed, rfl, rfl⟩, piece, member, rfl, shape,
      oriented, own, inside, rfl⟩

end Search

theorem anon_denotes (scope : Scope) {relation : String} {binding : Binding} {row col : Int}
    (here : Place.Here binding row col) :
    (scope.keyed relation (Place.here.args ++ [.anon, .anon])).Denotes binding fact ↔
      ∃ id index, fact = ⟨relation, key scope binding ++ [.num row, .num col, id, index]⟩ := by
  obtain ⟨own, values⟩ := fact
  cases scope <;> simp [Scope.keyed, Scope.areaVariable, key, Atom.Denotes, Place.args, Place.here, Term.Denotes,
    here.1, here.2]

theorem constraint_mem_coveredByPieces {scope : Scope} {body : List Literal} :
    .constraint body ∈ (coveredByPieces name color scope).statements ↔
      body = [.test (scope.covers .here), .test (color.on .here),
        .fails (scope.keyed (covering name color scope) (Place.here.args ++ [.anon, .anon]))] := by
  apply List.mem_singleton.trans
  rw [Statement.constraint.injEq]

/-- The constraint looks for a cell of the color that the covering relation leaves out. -/
private theorem violated_iff {world : World} (shows : world.Shows board (some color))
    (shaped : ∀ fact : Fact, world fact → fact.relation = covering name color .grid →
      ∃ row col id index, fact = .placed (covering name color .grid) row col id index) :
    (coveredByPieces name color .grid).Violated world ↔ ∃ row col,
      (board.colored color).Shades row col ∧ ∀ id index,
        ¬ world (.placed (covering name color .grid) row col id index) := by
  have fails {binding : Binding} {row col : Int} (here : Place.Here binding row col) :
      (Test.fails ⟨covering name color .grid, Place.here.args ++ [.anon, .anon]⟩).Holds world binding ↔
        ∀ id index, ¬ world (.placed (covering name color .grid) row col id index) := by
    refine ⟨fun none id index => none _ ((anon_denotes .grid here).mpr ⟨_, _, rfl⟩), fun none fact denoted holds => ?_⟩
    obtain ⟨row', col', id, index, rfl⟩ := shaped fact holds denoted.1
    obtain ⟨_, _, same⟩ := (anon_denotes .grid here).mp denoted
    obtain ⟨rows, cols⟩ : row' = row ∧ col' = col := by
      simp only [key, List.nil_append, Fact.placed, Fact.mk.injEq, List.cons.injEq, Value.num.injEq] at same
      exact ⟨same.2.1, same.2.2.1⟩
    rw [rows, cols] at holds
    exact none id index holds
  have met_iff {binding : Binding} {row col : Int} {scope : List String} (here : Place.Here binding row col) :
      (∀ literal ∈ inColor (some color) ++
          [.fails ⟨covering name color .grid, Place.here.args ++ [.anon, .anon]⟩],
        literal.Holds world scope binding) ↔ (board.colored color).Shades row col ∧
          ∀ id index, ¬ world (.placed (covering name color .grid) row col id index) := by
    rw [List.forall_mem_append, List.forall_mem_singleton, shows.inColor_holds here, ← fails here]
    exact Iff.rfl
  apply Iff.intro
  · intro violated
    obtain ⟨body, statement, binding, met⟩ := violated
    cases constraint_mem_coveredByPieces.mp statement
    obtain ⟨row, col, _, here⟩ := shows.onGrid_here.mp (met _ List.mem_cons_self)
    exact ⟨row, col, (met_iff here).mp met⟩
  · intro uncovered
    obtain ⟨row, col, both⟩ := uncovered
    obtain ⟨binding, here⟩ := Place.exists_here row col
    exact ⟨_, constraint_mem_coveredByPieces.mpr rfl, binding, (met_iff here).mpr both⟩

/-- Shapes with different numbers that fit the board are registered, and their occurrences found, without
overflow. The rules have one model: its detector holds just of the occurrences, its covering relation just of
the cells under them, and the constraint that the color be covered is broken exactly if some cell of the
color lies under no occurrence. -/
theorem registerAll_agree (board : Board) (name : String) (color : Color) (includeSelf : Adjacency → Bool)
    (pieces : List Piece) (memo : Memo) (bounded : board.Bounded) (sound : memo.Sound)
    (fixed : ∀ piece ∈ pieces, piece.kind.Fixed) (named : NamedApart color pieces)
    (fits : ∀ piece ∈ pieces, piece.Fits board)
    (distinct : ∀ first ∈ pieces, ∀ second ∈ pieces, first.id = second.id → first = second) :
    ∃ (program : Program) (found : Piece → List (Cell × Nat)),
      (registerAll name color pieces memo).1 = .ok program ∧
      (∀ piece ∈ pieces, piece.occurrences (board.colored color) = .ok (found piece)) ∧
      (∃! world, program.Model (pieceFacts board color pieces includeSelf) world) ∧
      ∀ world, program.Model (pieceFacts board color pieces includeSelf) world →
        (∀ fact : Fact, fact.relation = detector name color .grid → (world fact ↔ ∃ piece ∈ pieces,
          ∃ root index, (root, index) ∈ found piece ∧
            fact = .placed (detector name color .grid) root.row.val root.col.val piece.id index)) ∧
        (∀ fact : Fact, fact.relation = covering name color .grid → (world fact ↔ ∃ piece ∈ pieces,
          ∃ root index cell, (root, index) ∈ found piece ∧ piece.Covers root index cell ∧
            fact = .placed (covering name color .grid) cell.row.val cell.col.val piece.id index)) ∧
        ((coveredByPieces name color .grid).Violated world ↔ ∃ cell,
          (board.colored color).isShaded cell = true ∧ ∀ piece ∈ pieces, ∀ root index,
            (root, index) ∈ found piece → ¬ piece.Covers root index cell) := by
  obtain ⟨program, built⟩ := exists_registerAll name color sound fits
  have registered := mem_registerAll name color sound built
  have each : ∀ piece ∈ pieces, ∃ found, piece.occurrences (board.colored color) = .ok found := by
    intro piece member
    exact (fits piece member).exists_occurrences (fun cell => Board.contains_colored color)
      (Board.bounded_colored bounded color) (fixed piece member)
  choose! found searched using each
  refine ⟨program, found, built, searched, (stratified registered).existsUnique_model _, ?_⟩
  intro world model
  have gives : Gives _ board color pieces includeSelf := gives_pieceFacts named
  have shows := shows_of_model registered gives model
  have ruled := ruled_of_registerAll sound built
  have covered (fact : Fact) (label : fact.relation = covering name color .grid) :=
    (covered_iff ruled registered gives model fixed label).trans (covered_iff_found searched fits distinct)
  refine ⟨fun fact => detector_iff searched ruled registered model fixed named, covered, ?_⟩
  · rw [violated_iff shows]
    · apply Iff.intro
      · intro uncovered
        obtain ⟨row, col, ⟨cell, shaded, rfl, rfl⟩, none⟩ := uncovered
        refine ⟨cell, shaded, fun piece member root index listed covers => none piece.id index ?_⟩
        exact (covered _ rfl).mpr ⟨piece, member, root, index, cell, listed, covers, rfl⟩
      · intro uncovered
        obtain ⟨cell, shaded, none⟩ := uncovered
        refine ⟨_, _, Board.shades_cell.mpr shaded, fun id index holds => ?_⟩
        obtain ⟨piece, member, root, number, other, listed, covers, same⟩ := (covered _ rfl).mp holds
        obtain ⟨_, rows, cols, _⟩ := Fact.placed_inj.mp same
        rw [← Cell.ext rows cols] at covers
        exact none piece member root number listed covers
    · intro fact holds label
      obtain ⟨piece, _, root, index, cell, _, _, same⟩ := (covered fact label).mp holds
      exact ⟨_, _, _, _, same⟩

def cornerBoard : Board :=
  .ofShading 2 3 (by decide) fun row col => if row = 0 then col = 2 else col ≠ 2

def domino : Piece := ⟨2, [.of 0 1, .of 0 0], .walled, false⟩

def single : Piece := ⟨1, [.of 3 3], .around, false⟩

theorem domino_shapes : domino.shapes =
    .ok [⟨[.of 0 0, .of 0 1]⟩, ⟨[.of 0 0, .of 1 0]⟩] := by decide

private theorem single_shapes : single.shapes = .ok [⟨[.of 0 0]⟩] := by decide

theorem corner_fits : ∀ piece ∈ [domino, single], piece.Fits cornerBoard := by
  rw [List.forall_mem_cons, List.forall_mem_singleton]
  exact ⟨fits_of_small domino_shapes (by decide) (by decide) (by decide),
    fits_of_small single_shapes (by decide) (by decide) (by decide)⟩

theorem corner_fixed : ∀ piece ∈ [domino, single], piece.kind.Fixed := by
  rw [List.forall_mem_cons, List.forall_mem_singleton]
  exact ⟨⟨nofun, nofun⟩, nofun, nofun⟩

theorem corner_occurrences : domino.occurrences cornerBoard.complement = .ok [(.of 0 0, 0)] ∧
    single.occurrences cornerBoard.complement = .ok [] := by decide +kernel

theorem registerAll_agree_corner : ∃ program world,
    (registerAll "small" (.negated "black") [domino, single] .empty).1 = .ok program ∧
    program.Model (pieceFacts cornerBoard (.negated "black") [domino, single] fun _ => true) world ∧
    world (.placed (detector "small" (.negated "black") .grid) 0 0 2 0) ∧
    (coveredByPieces "small" (.negated "black") .grid).Violated world := by
  have distinct : ∀ first ∈ [domino, single], ∀ second ∈ [domino, single], first.id = second.id →
      first = second := by
    simp [domino, single]
  obtain ⟨program, found, built, searched, ⟨world, model, _⟩, agree⟩ := registerAll_agree cornerBoard "small"
    (.negated "black") (fun _ => true) [domino, single] .empty ⟨by decide, by decide⟩ Memo.sound_empty
    corner_fixed ⟨by decide, by decide⟩ corner_fits distinct
  obtain ⟨detected, _, violated⟩ := agree world model
  have foundDominoes := Except.ok.inj ((searched domino List.mem_cons_self).symm.trans corner_occurrences.1)
  have foundSingles := Except.ok.inj ((searched single (by simp)).symm.trans corner_occurrences.2)
  refine ⟨program, world, built, model, ?_, ?_⟩
  · refine (detected _ rfl).mpr ⟨domino, List.mem_cons_self, .of 0 0, 0, ?_, rfl⟩
    rw [foundDominoes]
    exact List.mem_cons_self
  · refine violated.mpr ⟨.of 1 2, by decide +kernel, ?_⟩
    rw [List.forall_mem_cons, List.forall_mem_singleton, foundDominoes, foundSingles]
    refine ⟨fun root index listed covers => ?_, fun root index none => absurd none List.not_mem_nil⟩
    cases List.mem_singleton.mp listed
    obtain ⟨shape, ⟨shapes, turned, numbered⟩, own, member, placed⟩ := covers
    cases domino_shapes.symm.trans turned
    cases numbered
    have apart : ∀ own ∈ [Cell.of 0 0, .of 0 1], Cell.shift (.of 0 0) own ≠ .ok (.of 1 2) := by decide
    exact apart own member placed

def tall (loose : Bool) : Piece := ⟨0, [.of 0 0, ⟨.greatest, .of 0⟩], .side, loose⟩

private theorem tall_shapes : (tall true).shapes = .ok [⟨[.of 0 0, ⟨.greatest, .of 0⟩]⟩,
    ⟨[.of 0 0, ⟨.of 0, .greatest⟩]⟩] := by decide

def gapBoard : Board := .ofShading 1 4 (by decide) fun _ col => col ≠ 1

def dot : Piece := ⟨0, [.of 0 0], .side, false⟩

def bar : Piece := ⟨0, [.of 0 0, .of 0 1, .of 0 2, .of 0 3], .side, false⟩

private theorem dot_shapes : dot.shapes = .ok [⟨[.of 0 0]⟩] := by decide

private theorem bar_shapes : bar.shapes = .ok [⟨[.of 0 0, .of 0 1, .of 0 2, .of 0 3]⟩,
    ⟨[.of 0 0, .of 1 0, .of 2 0, .of 3 0]⟩] := by decide

private theorem dot_occurrences : dot.occurrences gapBoard = .ok [(.of 0 0, 0)] := by decide

/-- Where two shapes share a number, an occurrence of one covers the cells of the other. -/
private theorem shared_number_covers : ∃ program world,
    (registerAll "bar" (.positive "black") [dot, bar] .empty).1 = .ok program ∧
    program.Model (pieceFacts gapBoard (.positive "black") [dot, bar] fun _ => false) world ∧
    ¬ (coveredByPieces "bar" (.positive "black") .grid).Violated world := by
  have fits : ∀ piece ∈ [dot, bar], piece.Fits gapBoard := by
    rw [List.forall_mem_cons, List.forall_mem_singleton]
    exact ⟨fits_of_small dot_shapes (by decide) (by decide) (by decide),
      fits_of_small bar_shapes (by decide) (by decide) (by decide)⟩
  have fixed : ∀ piece ∈ [dot, bar], piece.kind.Fixed := by
    rw [List.forall_mem_cons, List.forall_mem_singleton]
    exact ⟨⟨nofun, nofun⟩, nofun, nofun⟩
  have gives : Gives _ gapBoard (.positive "black") [dot, bar] fun _ => false :=
    gives_pieceFacts ⟨by decide, by decide⟩
  obtain ⟨program, built⟩ := exists_registerAll "bar" (.positive "black") Memo.sound_empty fits
  have registered := mem_registerAll "bar" (.positive "black") Memo.sound_empty built
  obtain ⟨world, model, _⟩ := (stratified registered).existsUnique_model
    (pieceFacts gapBoard (.positive "black") [dot, bar] fun _ => false)
  have covered (fact : Fact) (label : fact.relation = covering "bar" (.positive "black") .grid) :=
    covered_iff (ruled_of_registerAll Memo.sound_empty built) registered gives model fixed label
  obtain ⟨_, shape, oriented, occurs⟩ := (mem_occurrences dot_occurrences).mp List.mem_cons_self
  refine ⟨program, world, built, model, ?_⟩
  rw [violated_iff (shows_of_model registered gives model)]
  · intro uncovered
    obtain ⟨row, col, ⟨cell, shaded, rfl, rfl⟩, none⟩ := uncovered
    have inBar : ∀ cell ∈ gapBoard.shadedCells, cell ∈ [.of 0 0, .of 0 1, .of 0 2, .of 0 3] := by
      decide
    refine none 0 0 ((covered _ rfl).mpr ⟨_, _, 0, 0, ⟨dot, List.mem_cons_self, rfl, shape, oriented, occurs⟩,
      bar, by simp, rfl, _, ⟨_, bar_shapes, rfl⟩, cell, inBar cell (Board.mem_shadedCells.mpr shaded), ?_⟩)
    exact Fact.placed_inj.mpr ⟨rfl, (Int.zero_add _).symm, (Int.zero_add _).symm, rfl, rfl⟩
  · intro fact holds label
    obtain ⟨_, _, id, index, _, _, _, _, _, _, _, _, same⟩ := (covered fact label).mp holds
    exact ⟨_, _, id, index, same⟩

/-- Without room for the steps, or where shapes share a number, the rules do not tell what a search finds.
The tall shape overflows in the search if it is loose, and else already as it is registered; and nothing
asks for the cells of the bar to be covered, as the dot occurs beside them. -/
theorem registerAll_disagree :
    ((∃ shapes, (tall true).shapes = .ok shapes ∧ ∀ shape ∈ shapes, ∀ pair ∈ Cell.pairs shape.cells,
        ∃ answer, Adjacency.side.touches pair.1 pair.2 = .ok answer) ∧
      (∃ program, (registerAll "tall" (.positive "black") [tall true] .empty).1 = .ok program) ∧
      (tall true).occurrences (.ofShading 2 1 (by decide) fun _ _ => true) = .error (.overflow .add) ∧
      (registerAll "tall" (.positive "black") [tall false] .empty).1 = .error (.overflow .add)) ∧
    (∃ program world,
      (registerAll "bar" (.positive "black") [dot, bar] .empty).1 = .ok program ∧
      program.Model (pieceFacts gapBoard (.positive "black") [dot, bar] fun _ => false) world ∧
      ¬ (coveredByPieces "bar" (.positive "black") .grid).Violated world) ∧
    dot.occurrences gapBoard = .ok [(.of 0 0, 0)] ∧ bar.occurrences gapBoard = .ok [] ∧
      gapBoard.isShaded (.of 0 2) = true ∧ ¬ dot.Covers (.of 0 0) 0 (.of 0 2) := by
  refine ⟨⟨⟨_, tall_shapes, fun shape member pair inside => ?_⟩, ?_, by decide, by decide⟩,
    shared_number_covers, dot_occurrences, by decide, by decide, fun covers => ?_⟩
  · have close : ∀ shape ∈ [⟨[.of 0 0, ⟨.greatest, .of 0⟩]⟩,
        (⟨[.of 0 0, ⟨.of 0, .greatest⟩]⟩ : Polyomino)], ∀ pair ∈ Cell.pairs shape.cells,
          (pair.1.row.val - pair.2.row.val).natAbs + (pair.1.col.val - pair.2.col.val).natAbs ≤ 2147483647 := by
      decide
    exact Adjacency.exists_touches .side (close shape member pair inside)
  · have answered : (registerAll "tall" (.positive "black") [tall true] .empty).1.toBool = true := by
      decide
    cases built : (registerAll "tall" (.positive "black") [tall true] .empty).1 with
    | error error =>
      rw [built] at answered
      cases answered
    | ok program => exact ⟨program, rfl⟩
  · obtain ⟨shape, ⟨shapes, turned, numbered⟩, own, member, placed⟩ := covers
    cases dot_shapes.symm.trans turned
    cases numbered
    cases List.mem_singleton.mp member
    exact absurd placed (by decide)

end Piece

end GridPuzzle.Template
