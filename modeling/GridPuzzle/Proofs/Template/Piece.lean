import GridPuzzle.Proofs.Polyomino.Memo
import GridPuzzle.Proofs.Template.Registration

/-!
Shapes registered under one name. Their rules say what touches, what occurs and what is covered, each by a
relation of its own, and negation only looks at relations that are settled before. So there is one model.
-/
namespace GridPuzzle.Template

/-- A shape to register: its number, its cells, and how an occurrence of it holds together. -/
structure Piece where
  id : Int
  cells : List Cell
  kind : Adjacency
  loose : Bool

namespace Piece

def entry (piece : Piece) (name : String) (color : Color) (scope : Scope) : Registration :=
  ⟨name, piece.id, color, scope, piece.kind, piece.loose⟩

def shapes (piece : Piece) : Except Error (List Polyomino) :=
  Polyomino.ofCells piece.cells >>= fun shape => shape.orientations .full

def occurrences (piece : Piece) (board : Board) : Except Error (List (Cell × Nat)) :=
  piece.shapes >>= fun shapes => board.occurrences shapes piece.kind piece.loose

/-- The shape is the orientation with the number. -/
def Oriented (piece : Piece) (index : Nat) (shape : Polyomino) : Prop :=
  ∃ shapes, piece.shapes = .ok shapes ∧ shapes[index]? = some shape

def Covers (piece : Piece) (root : Cell) (index : Nat) (cell : Cell) : Prop :=
  ∃ shape, piece.Oriented index shape ∧ ∃ own ∈ shape.cells, root.shift own = .ok cell

/-- The coordinates of the shape stay in range: when it is turned, when two of its cells are compared, when
it is placed on the board and, unless it is loose, in the steps out of it. -/
structure Fits (piece : Piece) (board : Board) : Prop where
  turns : ∃ shapes, piece.shapes = .ok shapes
  placeable : ∀ index shape, piece.Oriented index shape → board.Placeable piece.kind shape
  around : piece.loose = false → ∀ index shape, piece.Oriented index shape →
    ∀ step ∈ Cell.steps shape.cells, ∃ next, step.1.shift step.2 = .ok next

variable {piece : Piece} {index : Nat} {shape : Polyomino}

theorem Oriented.normal (oriented : piece.Oriented index shape) : shape.Normal := by
  obtain ⟨shapes, turned, numbered⟩ := oriented
  obtain ⟨first, built, turned⟩ := Outcome.bind_eq_ok.mp turned
  exact Polyomino.orientations_normal (Polyomino.normal_ofCells built) turned shape
    (List.mem_of_getElem? numbered)

theorem Oriented.unique {other : Polyomino} (oriented : piece.Oriented index shape)
    (turned : piece.Oriented index other) : shape = other := by
  obtain ⟨shapes, built, numbered⟩ := oriented
  obtain ⟨shapes', built', numbered'⟩ := turned
  cases built.symm.trans built'
  exact Option.some.inj (numbered.symm.trans numbered')

/-- The number of an orientation is small, so that it is written as it is. -/
theorem Oriented.signed64_index (oriented : piece.Oriented index shape) : signed64 index = index := by
  obtain ⟨shapes, turned, numbered⟩ := oriented
  obtain ⟨first, _, turned⟩ := Outcome.bind_eq_ok.mp turned
  have few := Polyomino.length_orientations turned
  have inside := (List.getElem?_eq_some_iff.mp numbered).1
  exact Int.bmod_eq_of_le (by omega) (by omega)

theorem Oriented.of_mem {shapes : List Polyomino} (turned : piece.shapes = .ok shapes)
    (member : shape ∈ shapes) : ∃ index, piece.Oriented index shape := by
  obtain ⟨index, numbered⟩ := List.mem_iff_getElem?.mp member
  exact ⟨index, shapes, turned, numbered⟩

/-- The rules of the shape can be built. -/
structure Ruled (piece : Piece) (name : String) (color : Color) (scope : Scope) : Prop where
  turns : ∃ shapes, piece.shapes = .ok shapes
  surveyed : ∀ index shape, piece.Oriented index shape →
    ∃ linked outer, (piece.entry name color scope).Surveyed shape linked outer

/-- Shapes that stay below a quarter of the range in each direction fit all boards up to half of it. -/
theorem fits_of_small {board : Board} {shapes : List Polyomino} (turned : piece.shapes = .ok shapes)
    (small : ∀ shape ∈ shapes, ∀ cell ∈ shape.cells,
      cell.row.val.natAbs < 536870912 ∧ cell.col.val.natAbs < 536870912)
    (rows : board.rows ≤ 1073741824) (cols : board.cols ≤ 1073741824) : piece.Fits board := by
  have own : ∀ index shape, piece.Oriented index shape → ∀ cell ∈ shape.cells,
      cell.row.val.natAbs < 536870912 ∧ cell.col.val.natAbs < 536870912 := by
    intro index shape oriented
    obtain ⟨others, turned', numbered⟩ := oriented
    cases turned.symm.trans turned'
    exact small shape (List.mem_of_getElem? numbered)
  refine ⟨⟨shapes, turned⟩, fun index shape oriented => ⟨fun pair member => ?_, ?_⟩, ?_⟩
  · obtain ⟨first, second⟩ := Cell.mem_of_mem_pairs member
    have smallFirst := own index shape oriented pair.1 first
    have smallSecond := own index shape oriented pair.2 second
    exact Adjacency.exists_touches piece.kind (by omega)
  · intro root inside cell member
    have bounds := Board.contains_iff.mp inside
    have smallCell := own index shape oriented cell member
    exact Cell.exists_shift_iff.mpr (by omega)
  · intro _ index shape oriented step member
    obtain ⟨inside, around⟩ := Cell.mem_steps.mp member
    have smallCell := own index shape oriented step.1 inside
    have smallStep := Board.small_of_mem_surroundings step.2 around
    exact Cell.exists_shift_iff.mpr (by omega)

theorem Fits.exists_occurrences {board searched : Board} (fits : piece.Fits board)
    (size : ∀ cell, searched.contains cell = board.contains cell) (bounded : searched.Bounded)
    (fixed : piece.kind.Fixed) : ∃ found, piece.occurrences searched = .ok found := by
  obtain ⟨shapes, turned⟩ := fits.turns
  have searchable : ∀ shape ∈ shapes, searched.Searchable piece.kind shape := by
    intro shape member
    obtain ⟨index, oriented⟩ := Oriented.of_mem turned member
    have own := fits.placeable index shape oriented
    exact ⟨fun root inside => own.placed root ((size root).symm.trans inside), fun _ _ => own.distances⟩
  obtain ⟨found, ended⟩ := Board.exists_occurrences bounded fixed piece.loose searchable
  exact ⟨found, (Outcome.bind_of_ok turned _).trans ended⟩

theorem mem_occurrences {searched : Board} {found : List (Cell × Nat)}
    (ended : piece.occurrences searched = .ok found) {root : Cell} :
    (root, index) ∈ found ↔ searched.contains root = true ∧ ∃ shape, piece.Oriented index shape ∧
      searched.Occurs piece.kind piece.loose root.row.val root.col.val shape := by
  obtain ⟨shapes, turned, listed⟩ := Outcome.bind_eq_ok.mp ended
  rw [Board.occurrences_iff listed]
  simp only [Oriented, turned, Except.ok.injEq, exists_eq_left']

theorem occurrences_ordered {searched : Board} {found : List (Cell × Nat)}
    (ended : piece.occurrences searched = .ok found) : found.Pairwise Board.Precedes := by
  obtain ⟨_, _, listed⟩ := Outcome.bind_eq_ok.mp ended
  exact Board.occurrences_ordered listed

/-- Register shapes under a name, one after the other with the same memo. -/
def registerAll (name : String) (color : Color) : List Piece → Memo → Except Error Program × Memo
  | [], memo => (.ok .empty, memo)
  | piece :: rest, memo =>
    let (first, memo) := (piece.entry name color .grid).register piece.cells memo
    let (others, memo) := registerAll name color rest memo
    (first >>= fun first => others >>= fun others => pure (first ++ others), memo)

def Registers (name : String) (color : Color) (scope : Scope) (pieces : List Piece) (statement : Statement) : Prop :=
  ∃ piece ∈ pieces, ∃ shapes, piece.shapes = .ok shapes ∧ (piece.entry name color scope).States shapes statement

variable {name : String} {color : Color} {scope : Scope} {board : Board}

theorem register_eq (name : String) (color : Color) (scope : Scope) {memo : Memo} (sound : memo.Sound)
    (piece : Piece) :
    ((piece.entry name color scope).register piece.cells memo).1 =
        piece.shapes >>= (piece.entry name color scope).rules ∧
      ((piece.entry name color scope).register piece.cells memo).2.Sound := by
  unfold Registration.register shapes
  cases Polyomino.ofCells piece.cells with
  | error error => exact ⟨rfl, sound⟩
  | ok shape =>
    refine ⟨?_, sound.orientations shape .full⟩
    exact congrArg (· >>= (piece.entry name color scope).rules) (sound.orientations_eq shape .full)

section Register

variable {memo : Memo} {piece : Piece} {program : Program} (sound : memo.Sound)
  (built : ((piece.entry name color scope).register piece.cells memo).1 = .ok program)
include sound built

private theorem rules_of_register :
    ∃ shapes, piece.shapes = .ok shapes ∧ (piece.entry name color scope).rules shapes = .ok program :=
  Outcome.bind_eq_ok.mp ((register_eq name color scope sound piece).1.symm.trans built)

theorem mem_register (statement : Statement) : statement ∈ program.statements ↔
    ∃ shapes, piece.shapes = .ok shapes ∧ (piece.entry name color scope).States shapes statement := by
  obtain ⟨shapes, turned, ruled⟩ := rules_of_register sound built
  rw [Registration.mem_rules ruled]
  simp only [turned, Except.ok.injEq, exists_eq_left']

theorem registers_of_register (statement : Statement) :
    statement ∈ program.statements ↔ Registers name color scope [piece] statement := by
  rw [mem_register sound built, Registers]
  simp only [List.mem_singleton, exists_eq_left]

theorem ruled_of_register : piece.Ruled name color scope := by
  obtain ⟨shapes, turned, ruled⟩ := rules_of_register sound built
  refine ⟨⟨shapes, turned⟩, fun index shape oriented => ?_⟩
  obtain ⟨_, turned', numbered⟩ := oriented
  cases turned.symm.trans turned'
  exact Registration.surveyed_of_rules ruled numbered

end Register

theorem Fits.exists_register (fits : piece.Fits board) (name : String) (color : Color) (scope : Scope)
    {memo : Memo} (sound : memo.Sound) :
    ∃ program, ((piece.entry name color scope).register piece.cells memo).1 = .ok program := by
  obtain ⟨shapes, turned⟩ := fits.turns
  have distances : ∀ shape ∈ shapes, ∀ pair ∈ Cell.pairs shape.cells, ∃ answer,
      piece.kind.touches pair.1 pair.2 = .ok answer := by
    intro shape member
    obtain ⟨index, oriented⟩ := Oriented.of_mem turned member
    exact (fits.placeable index shape oriented).distances
  have around : piece.loose = false → ∀ shape ∈ shapes, ∀ step ∈ Cell.steps shape.cells, ∃ next,
      step.1.shift step.2 = .ok next ∧ ∃ back, wayBack next = .ok back := by
    intro strict
    have roomy : ∀ shape ∈ shapes, shape.Roomy := by
      intro shape member
      obtain ⟨index, oriented⟩ := Oriented.of_mem turned member
      exact fits.around strict index shape oriented
    obtain ⟨first, built, ended⟩ := Outcome.bind_eq_ok.mp turned
    have normal := Polyomino.normal_ofCells built
    have steps := normal.steps_of_compact ended (normal.compact_of_roomy ended roomy)
    intro shape member step listed
    exact (steps shape member step listed).imp fun _ leads => ⟨leads.1, exists_wayBack_iff.mpr leads.2⟩
  obtain ⟨program, ruled⟩ := (piece.entry name color scope).exists_rules distances around
  rw [(register_eq name color scope sound piece).1, Outcome.bind_of_ok turned]
  exact ⟨program, ruled⟩

private theorem registers_cons {piece : Piece} {rest : List Piece} {statement : Statement} :
    Registers name color scope (piece :: rest) statement ↔
      (∃ shapes, piece.shapes = .ok shapes ∧ (piece.entry name color scope).States shapes statement) ∨
        Registers name color scope rest statement :=
  List.exists_mem_cons_iff _ _ _

theorem mem_registerAll (name : String) (color : Color) {memo : Memo} (sound : memo.Sound) {pieces : List Piece}
    {program : Program} (built : (registerAll name color pieces memo).1 = .ok program) (statement : Statement) :
    statement ∈ program.statements ↔ Registers name color .grid pieces statement := by
  induction pieces generalizing memo program with
  | nil =>
    cases built
    simp [Program.empty, Registers]
  | cons piece rest ih =>
    obtain ⟨first, builtFirst, tail⟩ := Outcome.bind_eq_ok.mp built
    obtain ⟨others, builtOthers, same⟩ := Outcome.bind_eq_ok.mp tail
    rw [← Outcome.pure_eq_ok.mp same, Program.statements_append, List.mem_append, registers_cons,
      mem_register sound builtFirst, ih (register_eq name color .grid sound piece).2 builtOthers]

theorem exists_registerAll (name : String) (color : Color) {memo : Memo} (sound : memo.Sound) {pieces : List Piece}
    (fits : ∀ piece ∈ pieces, piece.Fits board) :
    ∃ program, (registerAll name color pieces memo).1 = .ok program := by
  induction pieces generalizing memo with
  | nil => exact ⟨.empty, rfl⟩
  | cons piece rest ih =>
    obtain ⟨pieceFits, restFits⟩ := List.forall_mem_cons.mp fits
    obtain ⟨first, registered⟩ := pieceFits.exists_register name color .grid sound
    obtain ⟨others, built⟩ := ih (register_eq name color .grid sound piece).2 restFits
    exact ⟨first ++ others, (Outcome.bind_of_ok registered _).trans (Outcome.bind_of_ok built _)⟩

theorem ruled_of_registerAll {memo : Memo} (sound : memo.Sound) {pieces : List Piece} {program : Program}
    (built : (registerAll name color pieces memo).1 = .ok program) :
    ∀ piece ∈ pieces, piece.Ruled name color .grid := by
  induction pieces generalizing memo program with
  | nil => exact fun _ none => absurd none List.not_mem_nil
  | cons piece rest ih =>
    obtain ⟨first, builtFirst, tail⟩ := Outcome.bind_eq_ok.mp built
    obtain ⟨others, builtOthers, _⟩ := Outcome.bind_eq_ok.mp tail
    exact List.forall_mem_cons.mpr ⟨ruled_of_register sound builtFirst,
      ih (register_eq name color .grid sound piece).2 builtOthers⟩

private theorem register_refusedAlike (name : String) (color other : Color) (piece : Piece) (memo : Memo) :
    Outcome.RefusedAlike ((piece.entry name color .grid).register piece.cells memo).1
        ((piece.entry name other .grid).register piece.cells memo).1 ∧
      ((piece.entry name color .grid).register piece.cells memo).2 =
        ((piece.entry name other .grid).register piece.cells memo).2 := by
  have kind : (piece.entry name color .grid).kind = (piece.entry name other .grid).kind := rfl
  have loose : (piece.entry name color .grid).loose = (piece.entry name other .grid).loose := rfl
  unfold Registration.register
  cases Polyomino.ofCells piece.cells with
  | error error => exact ⟨.refl _, rfl⟩
  | ok shape =>
    refine ⟨(Outcome.RefusedAlike.refl (memo.orientations shape .full).1).bind fun shapes _ found found' => ?_, rfl⟩
    cases found.symm.trans found'
    exact Registration.rules_refusedAlike kind loose shapes

/-- The color takes no part in whether shapes can be registered. -/
theorem registerAll_refusedAlike (name : String) (color other : Color) (pieces : List Piece) (memo : Memo) :
    Outcome.RefusedAlike (registerAll name color pieces memo).1 (registerAll name other pieces memo).1 := by
  induction pieces generalizing memo with
  | nil => exact .of_ok
  | cons piece rest ih =>
    obtain ⟨first, memos⟩ := register_refusedAlike name color other piece memo
    have others : Outcome.RefusedAlike
        (registerAll name color rest ((piece.entry name color .grid).register piece.cells memo).2).1
        (registerAll name other rest ((piece.entry name other .grid).register piece.cells memo).2).1 := by
      rw [← memos]
      exact ih _
    exact first.bind fun _ _ _ _ => others.bind fun _ _ _ _ => .of_ok

/-- The rules say what touches, where a shape is detected and which cells it covers. -/
def Writes (name : String) (color : Color) (scope : Scope) (pieces : List Piece) (head : Atom)
    (body : List Literal) : Prop :=
  ∃ piece ∈ pieces, (∃ shapes, piece.shapes = .ok shapes) ∧
    ((piece.loose = false ∧ head = ⟨touching name color piece.kind, Place.here.args ++ Place.other.args⟩ ∧
      body = [.holds (piece.kind.joins .here .other), .test (color.on .other)]) ∨
    ∃ index shape linked outer, piece.Oriented index shape ∧
      (piece.entry name color scope).Surveyed shape linked outer ∧
      (head = (piece.entry name color scope).root index ∧
        body = (piece.entry name color scope).body shape linked outer ∨
      ∃ own ∈ shape.cells, head = (piece.entry name color scope).keyed (covering name color scope)
        (Place.here.step own) index ∧ body = [.holds ((piece.entry name color scope).root index)]))

/-- Nothing but these rules is registered. -/
theorem registers_iff {pieces : List Piece} {statement : Statement} :
    Registers name color scope pieces statement ↔
      ∃ head body, statement = .rule head body ∧ Writes name color scope pieces head body := by
  constructor
  · intro registers
    obtain ⟨piece, member, shapes, turned, ⟨strict, rfl⟩ | ⟨index, shape, linked, outer, numbered, surveyed,
      rfl | ⟨own, inside, rfl⟩⟩⟩ := registers
    · exact ⟨_, _, rfl, piece, member, ⟨shapes, turned⟩, .inl ⟨strict, rfl, rfl⟩⟩
    · exact ⟨_, _, rfl, piece, member, ⟨shapes, turned⟩, .inr ⟨index, shape, linked, outer,
        ⟨shapes, turned, numbered⟩, surveyed, .inl ⟨rfl, rfl⟩⟩⟩
    · exact ⟨_, _, rfl, piece, member, ⟨shapes, turned⟩, .inr ⟨index, shape, linked, outer,
        ⟨shapes, turned, numbered⟩, surveyed, .inr ⟨own, inside, rfl, rfl⟩⟩⟩
  · intro written
    obtain ⟨_, _, rfl, piece, member, ⟨shapes, turned⟩, ⟨strict, rfl, rfl⟩ | ⟨index, shape, linked, outer,
      oriented, surveyed, either⟩⟩ := written
    · exact ⟨piece, member, shapes, turned, .inl ⟨strict, rfl⟩⟩
    · obtain ⟨shapes, turned, numbered⟩ := oriented
      refine ⟨piece, member, shapes, turned, .inr ⟨index, shape, linked, outer, numbered, surveyed, ?_⟩⟩
      rcases either with ⟨rfl, rfl⟩ | ⟨own, inside, rfl, rfl⟩
      · exact .inl rfl
      · exact .inr ⟨own, inside, rfl⟩

/-- The origin is a cell of the shape, so that the body puts its rule on a cell of the scope. -/
theorem covers_of_body {world : World} (normal : shape.Normal) {linked outer : List (Cell × Cell)}
    {shared : List String} {binding : Binding}
    (holds : ∀ literal ∈ (piece.entry name color scope).body shape linked outer,
      literal.Holds world shared binding) : (scope.covers .here).Holds world binding := by
  obtain ⟨origin, member, zero⟩ := normal.has_origin
  have same : Place.here.step origin = .here := by
    obtain ⟨rows, cols⟩ := Prod.mk.inj zero
    simp [Place.step, Place.here, Term.shift, rows, cols]
  rw [← same]
  exact holds _ (List.mem_append_left _ (List.mem_append_left _ (List.mem_flatMap.mpr
    ⟨origin, member, List.mem_cons_self⟩)))

theorem here_of_body {world : World} (shows : world.Shows board (some color)) (normal : shape.Normal)
    {linked outer : List (Cell × Cell)} {shared : List String} {binding : Binding}
    (holds : ∀ literal ∈ (piece.entry name color .grid).body shape linked outer,
      literal.Holds world shared binding) : ∃ row col, Place.Here binding row col := by
  obtain ⟨row, col, _, here⟩ := shows.onGrid_here.mp (covers_of_body normal holds)
  exact ⟨row, col, here⟩

def labels (name : String) (color : Color) (scope : Scope) : List String :=
  detector name color scope :: covering name color scope :: Adjacency.all.map (touching name color)

private theorem head?_detector : (detector name color scope).toList.head? = some 's' :=
  Label.head?_join _ (by decide)

private theorem head?_covering : (covering name color scope).toList.head? = some 'b' :=
  Label.head?_join _ (by decide)

private theorem head?_touching (kind : Adjacency) : (touching name color kind).toList.head? = some 't' :=
  Label.head?_join _ (by decide)

theorem mem_labels {label : String} : label ∈ labels name color scope ↔
    label = detector name color scope ∨ label = covering name color scope ∨
      ∃ kind, touching name color kind = label := by
  have all (kind : Adjacency) : kind ∈ Adjacency.all := by cases kind <;> decide
  simp [labels, all]

private theorem head?_of_mem_labels {label : String} (labelled : label ∈ labels name color scope) :
    label.toList.head? ∈ [some 's', some 'b', some 't'] := by
  rcases mem_labels.mp labelled with rfl | rfl | ⟨kind, rfl⟩
  · simp [head?_detector]
  · simp [head?_covering]
  · simp [head?_touching]

theorem detector_ne_covering : detector name color scope ≠ covering name color scope :=
  Label.join_ne (by decide) (by rw [head?_covering]; decide)

theorem touching_ne_detector (kind : Adjacency) :
    touching name color kind ≠ detector name color scope :=
  Label.join_ne (by decide) (by rw [head?_detector]; decide)

theorem touching_ne_covering (kind : Adjacency) :
    touching name color kind ≠ covering name color scope :=
  Label.join_ne (by decide) (by rw [head?_covering]; decide)

/-- The kind is a word of its own in the label. -/
theorem touching_injective (name : String) (color : Color) :
    Function.Injective (touching name color) := by
  intro kind other same
  have lists := congrArg String.toList same
  simp only [touching, Label.toList_join, Label.Part.ofAdjacency, Label.Part.ofColor, Label.Part.text?,
    List.filterMap_cons, List.filterMap_nil, List.flatMap_cons, List.flatMap_nil, List.append_cancel_left_eq,
    List.cons_append, List.append_nil, List.cons.injEq, true_and, List.append_cancel_right_eq] at lists
  revert lists
  cases kind <;> cases other <;> simp [Label.plain, Adjacency.word, Adjacency.name]

theorem relation_injective : Function.Injective Adjacency.relation := by
  intro kind other same
  revert same
  cases kind <;> cases other <;> decide

def Given (color : Color) (relation : String) : Prop :=
  (relation = Relation.grid ∨ relation = Relation.area) ∨ relation = color.name ∨
    ∃ kind : Adjacency, relation = kind.relation

theorem Given.notMem_labels (name : String) (scope : Scope) {relation : String} (given : Given color relation) :
    relation ∉ labels name color scope := by
  intro labelled
  rcases given with (rfl | rfl) | rfl | ⟨kind, rfl⟩
  · exact absurd (head?_of_mem_labels labelled) (by decide)
  · exact absurd (head?_of_mem_labels labelled) (by decide)
  · rcases mem_labels.mp labelled with same | same | ⟨kind, same⟩
    · exact Label.join_ne_name (by simp) same.symm
    · exact Label.join_ne_name (by simp) same.symm
    · exact Label.join_ne_name (by simp) same
  · exact absurd (head?_of_mem_labels labelled) (by cases kind <;> decide)

/-- Touching is read off the given facts, and what occurs is read off touching. -/
def rank (name : String) (color : Color) (scope : Scope) (relation : String) : Nat :=
  if relation = detector name color scope ∨ relation = covering name color scope then 2
  else if relation ∈ labels name color scope then 1 else 0

private theorem rank_le (relation : String) : rank name color scope relation ≤ 2 := by
  unfold rank
  split
  · exact Nat.le_refl _
  · split <;> omega

private theorem rank_detector : rank name color scope (detector name color scope) = 2 := if_pos (.inl rfl)

private theorem rank_covering : rank name color scope (covering name color scope) = 2 := if_pos (.inr rfl)

private theorem rank_touching (kind : Adjacency) : rank name color scope (touching name color kind) = 1 := by
  rw [rank, if_neg (not_or.mpr ⟨touching_ne_detector kind, touching_ne_covering kind⟩),
    if_pos (mem_labels.mpr (.inr (.inr ⟨kind, rfl⟩)))]

private theorem Given.rank_eq (name : String) (scope : Scope) {relation : String} (given : Given color relation) :
    rank name color scope relation = 0 := by
  have outside := given.notMem_labels name scope
  rw [rank, if_neg, if_neg outside]
  intro either
  exact outside (mem_labels.mpr (either.imp_right .inl))

private theorem relations_on {place : Place} : (Literal.test (color.on place)).relations = [color.name] := by
  cases color <;> rfl

private theorem touch_relations (kind : Adjacency) :
    ∀ literal ∈ [Literal.holds (kind.joins .here .other), .test (color.on .other)],
      ∀ relation ∈ literal.relations, Given color relation := by
  rw [List.forall_mem_cons, List.forall_mem_singleton, relations_on]
  constructor
  · intro relation looked
    exact .inr (.inr ⟨kind, List.mem_singleton.mp looked⟩)
  · intro relation looked
    exact .inr (.inl (List.mem_singleton.mp looked))

private theorem body_relations (piece : Piece) (shape : Polyomino) (linked outer : List (Cell × Cell)) :
    ∀ literal ∈ (piece.entry name color scope).body shape linked outer, ∀ relation ∈ literal.relations,
      Given color relation ∨ relation = touching name color piece.kind := by
  rw [Registration.body, List.forall_mem_append, List.forall_mem_append, Registration.cellsMatch,
    List.forall_mem_flatMap, List.forall_mem_map, List.forall_mem_map]
  refine ⟨⟨fun own _ => ?_, fun pair _ relation looked => ?_⟩, fun pair _ relation looked => ?_⟩
  · rw [List.forall_mem_cons, List.forall_mem_singleton]
    constructor
    · intro relation looked
      refine .inl (.inl ?_)
      cases scope with
      | grid => exact .inl (List.mem_singleton.mp looked)
      | area => exact .inr (List.mem_singleton.mp looked)
    · intro relation looked
      refine .inl (.inr (.inl (List.mem_singleton.mp ?_)))
      rwa [← relations_on]
  · exact .inl (.inr (.inr ⟨piece.kind, List.mem_singleton.mp looked⟩))
  · exact .inr (List.mem_singleton.mp looked)

section Registered

variable {pieces : List Piece} {program : Program}
  (registered : ∀ statement, statement ∈ program.statements ↔ Registers name color scope pieces statement)
include registered

theorem rule_iff {head : Atom} {body : List Literal} :
    .rule head body ∈ program.statements ↔ Writes name color scope pieces head body := by
  rw [registered, registers_iff]
  simp only [Statement.rule.injEq, and_assoc, exists_and_left, exists_eq_left']

theorem no_fact (atom : Atom) : .fact atom ∉ program.statements := by
  intro statement
  obtain ⟨head, body, same, _⟩ := registers_iff.mp ((registered _).mp statement)
  cases same

theorem label_of_defines {relation : String} (defines : program.Defines relation) :
    relation ∈ labels name color scope := by
  rw [mem_labels]
  obtain ⟨atom, statement, _⟩ | ⟨head, body, statement, rfl⟩ := defines
  · exact absurd statement (no_fact registered atom)
  · obtain ⟨piece, _, _, ⟨_, rfl, _⟩ | ⟨index, shape, linked, outer, _, _, ⟨rfl, _⟩ | ⟨own, _, rfl, _⟩⟩⟩ :=
      (rule_iff registered).mp statement
    · exact .inr (.inr ⟨piece.kind, rfl⟩)
    · exact .inl (Registration.root_relation _ _)
    · exact .inr (.inl (Registration.keyed_relation _ _ _ _))

theorem notDefines {relation : String} (given : Given color relation) :
    ¬ program.Defines relation :=
  fun defines => given.notMem_labels name scope (label_of_defines registered defines)

/-- Touching looks at what is given only, and the other rules look at touching. -/
theorem stratified : program.Stratified (rank name color scope) := by
  constructor
  · intro head body statement atom positive
    obtain ⟨piece, _, _, ⟨_, rfl, rfl⟩ | ⟨index, shape, linked, outer, _, _, ⟨rfl, rfl⟩ | ⟨own, _, rfl, rfl⟩⟩⟩ :=
      (rule_iff registered).mp statement
    · have given := touch_relations piece.kind _ positive atom.relation (List.mem_singleton_self _)
      exact (given.rank_eq name scope).trans_le (Nat.zero_le _)
    · exact (rank_le _).trans_eq ((congrArg _ (Registration.root_relation _ _)).trans rank_detector).symm
    · exact (rank_le _).trans_eq ((congrArg _ (Registration.keyed_relation _ _ _ _)).trans rank_covering).symm
  · intro head body statement literal member negative relation looked
    obtain ⟨piece, _, _, ⟨_, rfl, rfl⟩ | ⟨index, shape, linked, outer, _, _, ⟨rfl, rfl⟩ | ⟨own, _, rfl, rfl⟩⟩⟩ :=
      (rule_iff registered).mp statement
    · have given := touch_relations piece.kind _ member relation looked
      exact (given.rank_eq name scope).trans_lt (Nat.lt_of_lt_of_eq Nat.zero_lt_one (rank_touching piece.kind).symm)
    · refine Nat.lt_of_lt_of_eq ?_ ((congrArg _ (Registration.root_relation _ _)).trans rank_detector).symm
      rcases body_relations piece shape linked outer _ member relation looked with given | rfl
      · exact (given.rank_eq name scope).trans_lt Nat.zero_lt_two
      · exact (rank_touching piece.kind).trans_lt Nat.one_lt_two
    · exact absurd (List.mem_singleton.mp member) (negative _)

end Registered

end Piece

/-- What a sound memo remembers makes no difference to a registration. -/
theorem Registration.register_eq (entry : Registration) (cells : List Cell) {memo : Memo} (sound : memo.Sound) :
    (entry.register cells memo).1 =
      (Polyomino.ofCells cells >>= fun shape => shape.orientations .full) >>= entry.rules :=
  (Piece.register_eq entry.name entry.color entry.scope sound ⟨entry.id, cells, entry.kind, entry.loose⟩).1

end GridPuzzle.Template
