import GridPuzzle.Proofs.Template.Areas
import GridPuzzle.Proofs.Template.Detection

/-!
Shapes detected in areas. An area has just those occurrences of a shape that the whole grid has and whose cells
all lie in the area, and the constraint over areas is broken exactly if such occurrences leave out a cell of
the color in some area.
-/
namespace GridPuzzle

/-- The relation holds in an area of a cell, the number of a shape and that of its orientation. -/
def Fact.placedIn (relation : String) (area : Value) (row col id : Int) (index : Nat) : Fact :=
  ⟨relation, [area, .num row, .num col, .num id, .num index]⟩

theorem Fact.placedIn_inj {relation relation' : String} {area area' : Value} {row col id row' col' id' : Int}
    {index index' : Nat} : placedIn relation area row col id index = placedIn relation' area' row' col' id' index' ↔
      relation = relation' ∧ area = area' ∧ row = row' ∧ col = col' ∧ id = id' ∧ index = index' := by
  simp only [placedIn, Fact.mk.injEq, List.cons.injEq, Value.num.injEq, Int.ofNat_inj, and_true]

namespace Template.Piece

variable {name : String} {color : Color} {board : Board} {areas : Value → List Cell} {piece : Piece}
  {pieces : List Piece} {includeSelf : Adjacency → Bool} {area : Value} {row col : Int} {index : Nat}
  {shape : Polyomino} {relation : String} {binding : Binding} {fact : Fact} {given world : World}

/-- All cells of the shape, placed at the row and column, belong to the area. -/
def Lies (areas : Value → List Cell) (area : Value) (row col : Int) (shape : Polyomino) : Prop :=
  ∀ own ∈ shape.cells, ∃ cell ∈ areas area,
    cell.row.val = row + own.row.val ∧ cell.col.val = col + own.col.val

def areaPieceFacts (board : Board) (areas : Value → List Cell) (color : Color) (pieces : List Piece)
    (includeSelf : Adjacency → Bool) : World :=
  (pieceFacts board color pieces includeSelf).join (areaFacts areas)

section Given

variable (named : NamedApart color pieces) (free : color.name ≠ Relation.area)
include named free

theorem gives_areaPieceFacts :
    Gives (areaPieceFacts board areas color pieces includeSelf) board color pieces includeSelf := by
  have gives : Gives (pieceFacts board color pieces includeSelf) board color pieces includeSelf :=
    gives_pieceFacts named
  refine ⟨gives.shows.join fun fact member => ?_, fun piece inside fact same => ?_, fun fact given => ?_⟩
  · rw [areaFacts_relation member]
    refine ⟨by decide, fun own chosen => ?_⟩
    cases chosen
    exact free
  · have apart : piece.kind.relation ≠ Relation.area := by cases piece.kind <;> decide
    rw [← gives.joins piece inside fact same]
    exact or_iff_left fun member => apart (same.symm.trans (areaFacts_relation member))
  · rcases given with given | member
    · exact gives.plain fact given
    · exact .inl (.inr (areaFacts_relation member))

omit named in
theorem areaPieceFacts_members (same : fact.relation = Relation.area) :
    areaPieceFacts board areas color pieces includeSelf fact ↔ areaFacts areas fact := by
  refine or_iff_right fun given => ?_
  rcases given with (isGrid | isColor) | ⟨piece, _, joins⟩
  · exact absurd ((Board.gridFacts_relation isGrid).symm.trans same) (by decide)
  · exact free ((Board.colorFacts_relation isColor).symm.trans same)
  · have apart : piece.kind.relation ≠ Relation.area := by cases piece.kind <;> decide
    exact apart ((Board.adjacencyFacts_relation joins).symm.trans same)

end Given

section Divided

variable (divides : Divides world board areas color)
include divides

private theorem covers_iff (here : Place.Here binding row col) :
    (∀ own ∈ shape.cells, (Scope.area.covers (Place.here.step own)).Holds world binding) ↔
      Lies areas (binding "A") row col shape := by
  refine forall_congr' fun own => imp_congr_right fun _ => ?_
  rw [Scope.covers, divides.member_iff (here.step_stands own).args]
  simp only [Value.num.injEq, eq_comm]

private theorem here_of_covers (covers : (Scope.area.covers .here).Holds world binding) :
    ∃ row col, Place.Here binding row col := by
  obtain ⟨cell, _, rows, cols⟩ := (divides.member_iff (here_args binding)).mp covers
  exact ⟨_, _, rows, cols⟩

end Divided

/-- The constraint looks for a cell of the color in some area that the covering relation leaves out there. -/
private theorem violatedIn_iff (divides : Divides world board areas color)
    (shaped : ∀ fact : Fact, world fact → fact.relation = covering name color .area →
      ∃ area row col id index, fact = .placedIn (covering name color .area) area row col id index) :
    (coveredByPieces name color .area).Violated world ↔ ∃ area, ∃ cell ∈ areas area,
      (board.colored color).isShaded cell = true ∧ ∀ id index,
        ¬ world (.placedIn (covering name color .area) area cell.row.val cell.col.val id index) := by
  have fails {binding : Binding} {row col : Int} (here : Place.Here binding row col) :
      (Test.fails (Scope.area.keyed (covering name color .area) (Place.here.args ++ [.anon, .anon]))).Holds world
          binding ↔
        ∀ id index, ¬ world (.placedIn (covering name color .area) (binding "A") row col id index) := by
    refine ⟨fun none id index => none _ ((anon_denotes .area here).mpr ⟨_, _, rfl⟩), fun none fact denoted holds => ?_⟩
    obtain ⟨id, index, rfl⟩ := (anon_denotes .area here).mp denoted
    obtain ⟨area, row', col', number, orientation, same⟩ := shaped _ holds rfl
    obtain ⟨_, _, _, rfl, rfl⟩ : binding "A" = area ∧ row = row' ∧ col = col' ∧ id = .num number ∧
        index = .num orientation := by
      simpa [key, Fact.placedIn] using same
    exact none number orientation holds
  have met_iff {binding : Binding} {shared : List String} :
      (∀ literal ∈ (inAreaColor color .here).map Literal.test ++
          [Literal.fails (Scope.area.keyed (covering name color .area) (Place.here.args ++ [.anon, .anon]))],
        literal.Holds world shared binding) ↔ ∃ cell ∈ areas (binding "A"),
          (board.colored color).isShaded cell = true ∧ Place.Here binding cell.row.val cell.col.val ∧
          ∀ id index, ¬ world (.placedIn (covering name color .area) (binding "A") cell.row.val cell.col.val
            id index) := by
    rw [List.forall_mem_append, List.forall_mem_map, List.forall_mem_singleton]
    constructor
    · intro met
      obtain ⟨cell, shaded, here⟩ := divides.here_iff.mp met.1
      obtain ⟨shaded, member⟩ := Board.isShaded_within.mp shaded
      exact ⟨cell, member, shaded, here, (fails here).mp met.2⟩
    · intro missed
      obtain ⟨cell, member, shaded, here, none⟩ := missed
      exact ⟨divides.here_iff.mpr ⟨cell, Board.isShaded_within.mpr ⟨shaded, member⟩, here⟩, (fails here).mpr none⟩
  apply Iff.intro
  · intro violated
    obtain ⟨body, statement, binding, met⟩ := violated
    cases constraint_mem_coveredByPieces.mp statement
    obtain ⟨cell, member, shaded, _, none⟩ := met_iff.mp met
    exact ⟨binding "A", cell, member, shaded, none⟩
  · intro missed
    obtain ⟨area, cell, member, shaded, none⟩ := missed
    obtain ⟨binding, rfl, here, _⟩ := exists_in_area area cell.row.val cell.col.val 0 0
    exact ⟨_, constraint_mem_coveredByPieces.mpr rfl, binding, met_iff.mpr ⟨cell, member, shaded, here, none⟩⟩

/-- Over the grid, the detector holds of an orientation exactly where it occurs. -/
private theorem detected_iff_occurs {program : Program} (ruled : piece.Ruled name color .grid)
    (registered : ∀ statement, statement ∈ program.statements ↔ Registers name color .grid [piece] statement)
    (gives : Gives given board color [piece] includeSelf) (model : program.Model given world)
    (fixed : piece.kind.Fixed) (oriented : piece.Oriented index shape) :
    world (.placed (detector name color .grid) row col piece.id index) ↔
      (board.colored color).Occurs piece.kind piece.loose row col shape := by
  have alone : ∀ own ∈ [piece], own.Ruled name color .grid := List.forall_mem_singleton.mpr ruled
  rw [detected_iff alone registered gives model (List.forall_mem_singleton.mpr fixed) rfl]
  constructor
  · intro detected
    obtain ⟨_, _, _, _, ⟨other, member, _, turned, isTurned, occurs⟩, same⟩ := detected
    cases List.mem_singleton.mp member
    obtain ⟨_, rfl, rfl, _, rfl⟩ := Fact.placed_inj.mp same
    exact oriented.unique isTurned ▸ occurs
  · intro occurs
    exact ⟨row, col, piece.id, index, ⟨piece, List.mem_cons_self, rfl, shape, oriented, occurs⟩, rfl⟩

section Model

variable {program : Program} (ruled : piece.Ruled name color .area)
  (registered : ∀ statement, statement ∈ program.statements ↔ Registers name color .area [piece] statement)
  (gives : Gives given board color [piece] includeSelf) (model : program.Model given world)
  (divides : Divides world board areas color) (fixed : piece.kind.Fixed)
include ruled registered gives model divides fixed

/-- The rules of an area detect the occurrences that lie in it. -/
private theorem detectedIn_iff (label : fact.relation = detector name color .area) :
    world fact ↔ ∃ area row col index shape, piece.Oriented index shape ∧
      (board.colored color).Occurs piece.kind piece.loose row col shape ∧ Lies areas area row col shape ∧
      fact = .placedIn (detector name color .area) area row col piece.id index := by
  have alone : ∀ own ∈ [piece], own.Ruled name color .area := List.forall_mem_singleton.mpr ruled
  have knows := knows_of_model alone registered gives model List.mem_cons_self
  have within {binding : Binding} {row col : Int} {shape : Polyomino} (here : Place.Here binding row col) :
      ∀ own ∈ shape.cells, (Scope.area.covers (Place.here.step own)).Holds world binding →
        board.Covers (row + own.row.val) (col + own.col.val) := by
    intro own _ covers
    obtain ⟨cell, member, rows, cols⟩ := (divides.member_iff (here.step_stands own).args).mp covers
    rw [Value.num.inj rows, Value.num.inj cols]
    exact Board.covers_cell.mpr (divides.inside _ cell member)
  have body_iff {binding : Binding} {row col : Int} {index : Nat} {shape : Polyomino}
      {linked outer : List (Cell × Cell)} {shared : List String} (here : Place.Here binding row col)
      (oriented : piece.Oriented index shape)
      (surveyed : (piece.entry name color .area).Surveyed shape linked outer) :
      (∀ literal ∈ (piece.entry name color .area).body shape linked outer, literal.Holds world shared binding) ↔
        Lies areas (binding "A") row col shape ∧
          (board.colored color).Occurs piece.kind piece.loose row col shape := by
    rw [← covers_iff divides here]
    exact Registration.body_holds_in knows here fixed oriented.normal (within here) surveyed
  rw [detector_supported alone registered gives model label]
  apply Iff.intro
  · intro met
    obtain ⟨other, member, index, shape, linked, outer, oriented, surveyed, binding, denoted, holds⟩ := met
    cases List.mem_singleton.mp member
    obtain ⟨row, col, here⟩ := here_of_covers divides (covers_of_body oriented.normal holds)
    obtain ⟨lies, occurs⟩ := (body_iff here oriented surveyed).mp holds
    exact ⟨binding "A", row, col, index, shape, oriented, occurs, lies,
      (keyed_denotes oriented here.stands.args).mp denoted⟩
  · intro detected
    obtain ⟨area, row, col, index, shape, oriented, occurs, lies, rfl⟩ := detected
    obtain ⟨linked, outer, surveyed⟩ := ruled.surveyed index shape oriented
    obtain ⟨binding, rfl, here, _⟩ := exists_in_area area row col 0 0
    exact ⟨piece, List.mem_cons_self, index, shape, linked, outer, oriented, surveyed, binding,
      (keyed_denotes oriented here.stands.args).mpr rfl, (body_iff here oriented surveyed).mpr ⟨lies, occurs⟩⟩

/-- What is covered in an area lies under an occurrence there. -/
private theorem coveredIn_iff (label : fact.relation = covering name color .area) :
    world fact ↔ ∃ area row col index shape, piece.Oriented index shape ∧
      (board.colored color).Occurs piece.kind piece.loose row col shape ∧ Lies areas area row col shape ∧
      ∃ own ∈ shape.cells, fact = .placedIn (covering name color .area) area (row + own.row.val)
        (col + own.col.val) piece.id index := by
  have detected {fact : Fact} (label : fact.relation = detector name color .area) :=
    detectedIn_iff ruled registered gives model divides fixed label
  rw [covering_supported (List.forall_mem_singleton.mpr ruled) registered gives model label]
  apply Iff.intro
  · intro met
    obtain ⟨other, member, index, shape, oriented, own, inside, binding, denoted, inWorld⟩ := met
    cases List.mem_singleton.mp member
    obtain ⟨area, row, col, number, rooted, turned, occurs, lies, same⟩ := (detected rfl).mp inWorld
    obtain ⟨isArea, isRow, isCol, isIndex⟩ : binding "A" = area ∧ binding "R" = .num row ∧
        binding "C" = .num col ∧ index = number := by
      simpa [key, Fact.placedIn] using congrArg Fact.values same
    have here : Place.Here binding row col := ⟨isRow, isCol⟩
    subst isArea isIndex
    cases oriented.unique turned
    exact ⟨_, row, col, index, shape, oriented, occurs, lies, own, inside,
      (keyed_denotes oriented (here.step_stands own).args).mp denoted⟩
  · intro covered
    obtain ⟨area, row, col, index, shape, oriented, occurs, lies, own, inside, rfl⟩ := covered
    obtain ⟨binding, rfl, here, _⟩ := exists_in_area area row col 0 0
    refine ⟨piece, List.mem_cons_self, index, shape, oriented, own, inside, binding,
      (keyed_denotes oriented (here.step_stands own).args).mpr rfl, (detected rfl).mpr ?_⟩
    rw [here.1, here.2]
    exact ⟨_, row, col, index, shape, oriented, occurs, lies, rfl⟩

/-- The constraint is broken exactly if the occurrences in some area leave out a cell of the color there. -/
private theorem left_iff : (coveredByPieces name color .area).Violated world ↔ ∃ area, ∃ cell ∈ areas area,
    (board.colored color).isShaded cell = true ∧ ∀ row col index shape, piece.Oriented index shape →
      (board.colored color).Occurs piece.kind piece.loose row col shape → Lies areas area row col shape →
      ∀ own ∈ shape.cells, ¬ (cell.row.val = row + own.row.val ∧ cell.col.val = col + own.col.val) := by
  have covered (fact : Fact) (label : fact.relation = covering name color .area) :=
    coveredIn_iff ruled registered gives model divides fixed label
  rw [violatedIn_iff divides]
  · refine exists_congr fun area => exists_congr fun cell => and_congr_right fun _ => and_congr_right fun _ => ?_
    apply Iff.intro
    · intro none row col index shape oriented occurs lies own member placed
      refine none piece.id index ((covered _ rfl).mpr ⟨area, row, col, index, shape, oriented, occurs, lies, own,
        member, ?_⟩)
      rw [placed.1, placed.2]
    · intro left id index holds
      obtain ⟨_, row, col, _, shape, oriented, occurs, lies, own, member, same⟩ := (covered _ rfl).mp holds
      obtain ⟨_, rfl, rows, cols, _, rfl⟩ := Fact.placedIn_inj.mp same
      exact left row col index shape oriented occurs lies own member ⟨rows, cols⟩
  · intro fact holds label
    obtain ⟨area, row, col, index, shape, _, _, _, own, _, same⟩ := (covered fact label).mp holds
    exact ⟨_, _, _, _, _, same⟩

end Model

/-- The scope takes no part in whether a shape can be registered. -/
private theorem scopes_refusedAlike (name : String) (color : Color) (piece : Piece) {memo memo' : Memo}
    (sound : memo.Sound) (sound' : memo'.Sound) :
    Outcome.RefusedAlike ((piece.entry name color .grid).register piece.cells memo).1
      ((piece.entry name color .area).register piece.cells memo').1 := by
  have kind : (piece.entry name color .grid).kind = (piece.entry name color .area).kind := rfl
  have loose : (piece.entry name color .grid).loose = (piece.entry name color .area).loose := rfl
  rw [(register_eq name color .grid sound piece).1, (register_eq name color .area sound' piece).1]
  refine (Outcome.RefusedAlike.refl piece.shapes).bind fun shapes _ turned turned' => ?_
  cases turned.symm.trans turned'
  exact Registration.rules_refusedAlike kind loose shapes

/-- The given facts divide the board into areas, which may overlap, and shapes are registered over the grid or
over the areas. Either both registrations are refused for the same reason, or each has one model. Then an area
has just those occurrences that the grid has and that lie in the area, and the constraint over areas is broken
exactly if in some area they leave out a cell of the color. -/
theorem detector_areas_agree (board : Board) (areas : Value → List Cell)
    (inside : ∀ area, ∀ cell ∈ areas area, board.contains cell = true) (name : String) (color : Color)
    (includeSelf : Adjacency → Bool) (piece : Piece) (memo memo' : Memo) (sound : memo.Sound) (sound' : memo'.Sound)
    (fixed : piece.kind.Fixed) (named : NamedApart color [piece]) (free : color.name ≠ Relation.area) :
    Outcome.RefusedAlike ((piece.entry name color .grid).register piece.cells memo).1
      ((piece.entry name color .area).register piece.cells memo').1 ∧
    ∀ overGrid overAreas : Program,
      ((piece.entry name color .grid).register piece.cells memo).1 = .ok overGrid →
      ((piece.entry name color .area).register piece.cells memo').1 = .ok overAreas →
      (∃! world, overGrid.Model (areaPieceFacts board areas color [piece] includeSelf) world) ∧
      (∃! world, overAreas.Model (areaPieceFacts board areas color [piece] includeSelf) world) ∧
      ∀ one two, overGrid.Model (areaPieceFacts board areas color [piece] includeSelf) one →
        overAreas.Model (areaPieceFacts board areas color [piece] includeSelf) two →
        (∀ fact : Fact, fact.relation = detector name color .area → (two fact ↔
          ∃ area row col index shape, piece.Oriented index shape ∧
            one (.placed (detector name color .grid) row col piece.id index) ∧ Lies areas area row col shape ∧
            fact = .placedIn (detector name color .area) area row col piece.id index)) ∧
        ((coveredByPieces name color .area).Violated two ↔ ∃ area, ∃ cell ∈ areas area,
          (board.colored color).isShaded cell = true ∧ ∀ row col index shape, piece.Oriented index shape →
            one (.placed (detector name color .grid) row col piece.id index) → Lies areas area row col shape →
            ∀ own ∈ shape.cells, ¬ (cell.row.val = row + own.row.val ∧ cell.col.val = col + own.col.val)) := by
  refine ⟨scopes_refusedAlike name color piece sound sound', fun overGrid overAreas built built' => ?_⟩
  have ofGrid := registers_of_register sound built
  have ofAreas := registers_of_register sound' built'
  have ruled := ruled_of_register sound' built'
  have gives : Gives (areaPieceFacts board areas color [piece] includeSelf) board color [piece] includeSelf :=
    gives_areaPieceFacts named free
  refine ⟨(stratified ofGrid).existsUnique_model _, (stratified ofAreas).existsUnique_model _, ?_⟩
  intro one two model model'
  have divides : Divides two board areas color := by
    refine ⟨shows_of_model ofAreas gives model', fun fact same => ?_, inside⟩
    exact (model'.iff_given (same ▸ notDefines ofAreas (.inl (.inr rfl)))).trans (areaPieceFacts_members free same)
  have onGrid {row col : Int} {index : Nat} {shape : Polyomino} (oriented : piece.Oriented index shape) :
      one (.placed (detector name color .grid) row col piece.id index) ↔
        (board.colored color).Occurs piece.kind piece.loose row col shape :=
    detected_iff_occurs (ruled_of_register sound built) ofGrid gives model fixed oriented
  constructor
  · intro fact label
    rw [detectedIn_iff ruled ofAreas gives model' divides fixed label]
    refine exists_congr fun area => exists_congr fun row => exists_congr fun col => exists_congr fun index =>
      exists_congr fun shape => and_congr_right fun oriented => ?_
    rw [onGrid oriented]
  · rw [left_iff ruled ofAreas gives model' divides fixed]
    refine exists_congr fun area => exists_congr fun cell => and_congr_right fun _ => and_congr_right fun _ => ?_
    refine forall_congr' fun row => forall_congr' fun col => forall_congr' fun index =>
      forall_congr' fun shape => forall_congr' fun oriented => ?_
    rw [onGrid oriented]

/-- The two cells of the domino are one area, and the second of them with a cell below is another. -/
def overlapAreas : Value → List Cell
  | .num 0 => [.of 0 0, .of 0 1]
  | .num 1 => [.of 0 1, .of 1 2]
  | _ => []

private theorem not_lies_overlap (oriented : domino.Oriented index shape) :
    ¬ Lies overlapAreas (.num 1) row col shape := by
  obtain ⟨shapes, turned, numbered⟩ := oriented
  cases domino_shapes.symm.trans turned
  intro lies
  have apart : ∀ shape ∈ [⟨[.of 0 0, .of 0 1]⟩, (⟨[.of 0 0, .of 1 0]⟩ : Polyomino)],
      ∃ first ∈ shape.cells, ∃ second ∈ shape.cells, ∀ cell ∈ [Cell.of 0 1, .of 1 2], ∀ other ∈ [Cell.of 0 1, .of 1 2],
        ¬ (other.row.val - cell.row.val = second.row.val - first.row.val ∧
          other.col.val - cell.col.val = second.col.val - first.col.val) := by
    decide
  obtain ⟨first, isFirst, second, isSecond, none⟩ := apart shape (List.mem_of_getElem? numbered)
  obtain ⟨cell, member, rows, cols⟩ := lies first isFirst
  obtain ⟨other, member', rows', cols'⟩ := lies second isSecond
  exact none cell member other member' (by omega)

theorem detector_areas_agree_overlap : ∃ overGrid overAreas one two,
    ((domino.entry "small" (.negated "black") .grid).register domino.cells .empty).1 = .ok overGrid ∧
    ((domino.entry "small" (.negated "black") .area).register domino.cells .empty).1 = .ok overAreas ∧
    overGrid.Model (areaPieceFacts cornerBoard overlapAreas (.negated "black") [domino] fun _ => true) one ∧
    overAreas.Model (areaPieceFacts cornerBoard overlapAreas (.negated "black") [domino] fun _ => true) two ∧
    two (.placedIn (detector "small" (.negated "black") .area) (.num 0) 0 0 2 0) ∧
    (coveredByPieces "small" (.negated "black") .area).Violated two := by
  have inside (area : Value) (cell : Cell) (member : cell ∈ overlapAreas area) :
      cornerBoard.contains cell = true := by
    have all : ∀ cell ∈ [Cell.of 0 0, .of 0 1, .of 1 2], cornerBoard.contains cell = true := by decide
    refine all cell ?_
    unfold overlapAreas at member
    split at member <;> simp only [List.mem_cons, List.not_mem_nil] at member ⊢ <;> tauto
  have fixed : domino.kind.Fixed := corner_fixed domino List.mem_cons_self
  have named : NamedApart (.negated "black") [domino] := ⟨by decide, by decide⟩
  have free : (Color.negated "black").name ≠ Relation.area := by decide
  obtain ⟨alike, agree⟩ := detector_areas_agree cornerBoard overlapAreas inside "small" (.negated "black")
    (fun _ => true) domino .empty .empty Memo.sound_empty Memo.sound_empty fixed named free
  obtain ⟨overGrid, built⟩ := (corner_fits domino List.mem_cons_self).exists_register "small" (.negated "black")
    .grid Memo.sound_empty
  obtain ⟨overAreas, built'⟩ := alike.exists_ok built
  obtain ⟨⟨one, model, _⟩, ⟨two, model', _⟩, both⟩ := agree overGrid overAreas built built'
  obtain ⟨detected, violated⟩ := both one two model model'
  refine ⟨overGrid, overAreas, one, two, built, built', model, model', ?_, ?_⟩
  · have flat : domino.Oriented 0 ⟨[.of 0 0, .of 0 1]⟩ := ⟨_, domino_shapes, rfl⟩
    obtain ⟨_, shape, oriented, occurs⟩ :=
      (mem_occurrences corner_occurrences.1).mp (List.mem_singleton_self (Cell.of 0 0, 0))
    cases flat.unique oriented
    refine (detected _ rfl).mpr ⟨.num 0, 0, 0, 0, _, flat, ?_, ?_, rfl⟩
    · exact (detected_iff_occurs (ruled_of_register Memo.sound_empty built)
        (registers_of_register Memo.sound_empty built) (gives_areaPieceFacts named free) model fixed flat).mpr occurs
    · exact List.forall_mem_cons.mpr ⟨⟨.of 0 0, by decide, rfl, rfl⟩,
        List.forall_mem_singleton.mpr ⟨.of 0 1, by decide, rfl, rfl⟩⟩
  · refine violated.mpr ⟨.num 1, .of 0 1, by decide, by decide +kernel, ?_⟩
    intro row col index shape oriented _ lies
    exact absurd lies (not_lies_overlap oriented)

end Template.Piece

end GridPuzzle
