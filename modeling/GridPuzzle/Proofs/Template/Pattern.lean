import GridPuzzle.Proofs.Template.Repaint

/-!
Templates of one color, as patterns that any color may fill. Whatever the color, a pattern is built or refused, its
labels are no relations that it reads, and it has one model. Filled by two colors for the same cells, it labels the
same and breaks its constraints alike.
-/
namespace GridPuzzle.Template

inductive Pattern
  /-- All cells of the color are connected to the border of a grid of the size. -/
  | border (rows cols : Coord) (kind : Adjacency)
  /-- What sources reach. -/
  | sources (clues : List Clue) (kind : Adjacency)
  /-- And every cell of the color is reached. -/
  | reached (clues : List Clue) (kind : Adjacency)
  | bits (kind : Adjacency)
  | rectangles
  | noRectangle
  | block (height width : Coord) (corner : Option Cell)
  /-- Shapes registered with a memo, and every cell of the color is covered by one. -/
  | shapes (name : String) (pieces : List Piece) (memo : Memo)

namespace Pattern

def build : Pattern → Color → Except Error Program
  | border rows cols kind, color => connectedToBorder rows cols color kind
  | sources clues kind, color => .ok (reachFromAll clues (some color) kind)
  | reached clues kind, color => .ok (reachFromAll clues (some color) kind ++ reachedFromSome color kind)
  | bits kind, color => .ok (separatedByBits color kind)
  | rectangles, color => .ok (Template.rectangles color false)
  | noRectangle, color => .ok (Template.noRectangle color)
  | block height width corner, color => noBlock height width color corner
  | shapes name pieces memo, color =>
    (Piece.registerAll name color pieces memo).1 >>= fun program => .ok (program ++ coveredByPieces name color .grid)

def labels : Pattern → List (Color → String)
  | border _ _ kind => [fun color => spreadLabel ["border"] kind (some color)]
  | sources _ kind | reached _ kind => sourceLabels kind
  | bits kind => bitLabels kind
  | rectangles => roleLabels
  | noRectangle => [fun color => Label.join "no_rect" [.ofColor color]]
  | block _ _ _ => []
  | shapes name _ _ => Piece.shapeLabels name ++ Piece.touchLabels name

/-- The border is that of the board, and a memo holds what can be worked out anew. -/
def Suits (board : Board) : Pattern → Prop
  | border rows cols _ => rows.val = board.rows ∧ cols.val = board.cols
  | shapes _ _ memo => memo.Sound
  | _ => True

variable {pattern : Pattern} {board board' : Board} {color color' : Color} {program program' : Program}
  {one two : World}

theorem requireCells_eq_ok {rows cols : Coord} : requireCells rows cols = .ok () ↔ 0 < rows.val ∧ 0 < cols.val := by
  unfold requireCells
  split
  · refine ⟨nofun, fun sized => ?_⟩
    omega
  · refine ⟨fun _ => ?_, fun _ => rfl⟩
    omega

theorem border_of_ok {rows cols : Coord} {kind : Adjacency}
    (built : connectedToBorder rows cols color kind = .ok program) :
    program = spreading (spreadLabel ["border"] kind (some color)) color kind
      (ringRules rows.val.toNat cols.val.toNat color) := by
  obtain ⟨_, sized, _⟩ := Outcome.bind_eq_ok.mp built
  obtain ⟨tall, wide⟩ := requireCells_eq_ok.mp sized
  exact Except.ok.inj (built.symm.trans (connectedToBorder_ok tall wide))

theorem block_of_ok {height width : Coord} {corner : Option Cell}
    (built : noBlock height width color corner = .ok program) :
    (0 < height.val ∧ 0 < width.val) ∧
      program = ⟨[.constraint (blockBody color height width ((corner.map Place.ofCell).getD .here))]⟩ := by
  obtain ⟨_, sized, _⟩ := Outcome.bind_eq_ok.mp built
  obtain ⟨tall, wide⟩ := requireCells_eq_ok.mp sized
  exact ⟨⟨tall, wide⟩, Except.ok.inj (built.symm.trans (noBlock_ok tall wide corner))⟩

theorem shapes_of_ok {name : String} {pieces : List Piece} {memo : Memo} (sound : memo.Sound)
    (built : build (shapes name pieces memo) color = .ok program) :
    ∃ registering, program = registering ++ coveredByPieces name color .grid ∧
      ∀ statement, statement ∈ registering.statements ↔ Piece.Registers name color .grid pieces statement := by
  obtain ⟨registering, registered, same⟩ := Outcome.bind_eq_ok.mp built
  exact ⟨registering, (Except.ok.inj same).symm, Piece.mem_registerAll name color sound registered⟩

/-- Whether a pattern can be built does not depend on the color. -/
theorem build_refusedAlike (pattern : Pattern) (color color' : Color) :
    Outcome.RefusedAlike (pattern.build color) (pattern.build color') := by
  cases pattern with
  | border rows cols kind => exact (Outcome.RefusedAlike.refl (requireCells rows cols)).bind fun _ _ _ _ => .of_ok
  | block height width corner =>
    exact (Outcome.RefusedAlike.refl (requireCells height width)).bind fun _ _ _ _ => .of_ok
  | shapes name pieces memo =>
    exact (Piece.registerAll_refusedAlike name color color' pieces memo).bind fun _ _ _ _ => .of_ok
  | sources | reached | bits | rectangles | noRectangle => exact .of_ok

def bases : List String :=
  ["reachable", "upleft", "left", "up", "remain", "no_rect", "shape", "belong_to_shape", "touch_shape"]

/-- The label starts with one of the base words and carries the color. -/
def Tagged (label : Color → String) : Prop :=
  ∃ base ∈ bases, ∃ parts : Color → List Label.Part,
    (∀ color, .ofColor color ∈ parts color) ∧ ∀ color, label color = Label.join base (parts color)

theorem Tagged.ne_input {label : Color → String} (tagged : Tagged label) (color : Color) {relation : String}
    (given : relation ∈ inputs) : label color ≠ relation := by
  obtain ⟨base, isBase, parts, _, joined⟩ := tagged
  have apart : ∀ base ∈ bases, ∀ relation ∈ inputs, ¬ base.toList <+: relation.toList := by decide
  intro same
  have start := Label.base_isPrefix base (parts color)
  rw [← joined, same] at start
  exact apart base isBase relation given start

theorem Tagged.ne_name {label : Color → String} (tagged : Tagged label) (color : Color) :
    label color ≠ color.name := by
  obtain ⟨base, _, parts, carried, joined⟩ := tagged
  rw [joined]
  exact Label.join_ne_name (carried color)

theorem spreadLabel_tagged (words : List String) (kind : Adjacency) :
    Tagged fun color => spreadLabel words kind (some color) :=
  ⟨"reachable", by decide, _, fun _ => by simp, fun _ => rfl⟩

theorem labels_tagged (pattern : Pattern) : ∀ label ∈ pattern.labels, Tagged label := by
  cases pattern with
  | border rows cols kind => exact List.forall_mem_singleton.mpr (spreadLabel_tagged ["border"] kind)
  | sources clues kind | reached clues kind =>
    exact List.forall_mem_singleton.mpr (spreadLabel_tagged ["grid", "src"] kind)
  | bits kind =>
    exact List.forall_mem_cons.mpr ⟨spreadLabel_tagged ["grid", "bit"] kind,
      List.forall_mem_singleton.mpr (spreadLabel_tagged ["grid", "no_bit"] kind)⟩
  | rectangles =>
    have words : ∀ role ∈ Roles.words, role ∈ bases := by decide
    exact List.forall_mem_map.mpr fun role isRole =>
      ⟨role, words role isRole, _, fun _ => List.mem_singleton_self _, fun _ => rfl⟩
  | noRectangle =>
    exact List.forall_mem_singleton.mpr ⟨"no_rect", by decide, _, fun _ => List.mem_singleton_self _, fun _ => rfl⟩
  | block height width corner => exact List.forall_mem_nil _
  | shapes name pieces memo =>
    refine List.forall_mem_append.mpr ⟨List.forall_mem_cons.mpr ⟨?_, List.forall_mem_singleton.mpr ?_⟩,
      List.forall_mem_map.mpr fun kind _ => ?_⟩
    · exact ⟨"shape", by decide, _, fun _ => by simp, fun _ => rfl⟩
    · exact ⟨"belong_to_shape", by decide, _, fun _ => by simp, fun _ => rfl⟩
    · exact ⟨"touch_shape", by decide, _, fun _ => by simp, fun _ => rfl⟩

theorem label_ne_input (pattern : Pattern) (color : Color) :
    ∀ label ∈ pattern.labels, ∀ relation ∈ inputs, label color ≠ relation :=
  fun label member _ given => (pattern.labels_tagged label member).ne_input color given

theorem label_ne_name (pattern : Pattern) (color : Color) : ∀ label ∈ pattern.labels, label color ≠ color.name :=
  fun label member => (pattern.labels_tagged label member).ne_name color

theorem reachedFromSome_constraints (color : Color) (kind : Adjacency) :
    ∀ statement ∈ (reachedFromSome color kind).statements, ∃ body, statement = .constraint body :=
  List.forall_mem_singleton.mpr ⟨_, rfl⟩

theorem coveredByPieces_constraints (name : String) (color : Color) :
    ∀ statement ∈ (coveredByPieces name color .grid).statements, ∃ body, statement = .constraint body :=
  List.forall_mem_singleton.mpr ⟨_, rfl⟩

theorem label_of_defines (suits : pattern.Suits board) (built : pattern.build color = .ok program) {relation : String}
    (defines : program.Defines relation) : ∃ label ∈ pattern.labels, label color = relation := by
  cases pattern with
  | border rows cols kind =>
    cases border_of_ok built
    exact ⟨_, List.mem_singleton_self _, (defines_spreading defines).symm⟩
  | sources clues kind =>
    cases built
    exact ⟨_, List.mem_singleton_self _, (defines_reachFromAll defines).symm⟩
  | reached clues kind =>
    cases built
    rw [Program.defines_append_constraints (reachedFromSome_constraints color kind)] at defines
    exact ⟨_, List.mem_singleton_self _, (defines_reachFromAll defines).symm⟩
  | bits kind =>
    cases built
    have within : Program.Within [bitFlag true color kind, bitFlag false color kind]
        (separatedByBits color kind).statements := by
      simp [separatedByBits, bitFlag]
    rcases List.mem_pair.mp (within.mem_of_defines defines) with rfl | rfl
    · exact ⟨_, mem_bitLabels.mpr ⟨true, rfl⟩, rfl⟩
    · exact ⟨_, mem_bitLabels.mpr ⟨false, rfl⟩, rfl⟩
  | rectangles =>
    cases built
    obtain ⟨role, isRole, same⟩ := defines_rectangles defines
    exact ⟨_, mem_roleLabels.mpr ⟨role, isRole, rfl⟩, same⟩
  | noRectangle =>
    cases built
    rw [noRectangle_eq] at defines
    exact ⟨_, List.mem_singleton_self _, (defines_spreading defines).symm⟩
  | block height width corner =>
    cases (block_of_ok built).2
    rcases defines with ⟨_, statement, _⟩ | ⟨_, _, statement, _⟩
    · cases List.mem_singleton.mp statement
    · cases List.mem_singleton.mp statement
  | shapes name pieces memo =>
    obtain ⟨registering, rfl, registered⟩ := shapes_of_ok suits built
    rw [Program.defines_append_constraints (coveredByPieces_constraints name color)] at defines
    rcases Piece.mem_labels.mp (Piece.label_of_defines registered defines) with rfl | rfl | ⟨kind, rfl⟩
    · exact ⟨_, List.mem_append_left _ List.mem_cons_self, rfl⟩
    · exact ⟨_, List.mem_append_left _ (List.mem_cons_of_mem _ (List.mem_singleton_self _)), rfl⟩
    · exact ⟨_, List.mem_append_right _ (Piece.mem_touchLabels.mpr ⟨kind, rfl⟩), rfl⟩

theorem undefined_input (suits : pattern.Suits board) (built : pattern.build color = .ok program) {relation : String}
    (given : relation ∈ inputs) : ¬ program.Defines relation := by
  intro defines
  obtain ⟨label, member, same⟩ := label_of_defines suits built defines
  exact pattern.label_ne_input color label member relation given same

theorem undefined_name (suits : pattern.Suits board) (built : pattern.build color = .ok program) :
    ¬ program.Defines color.name := by
  intro defines
  obtain ⟨label, member, same⟩ := label_of_defines suits built defines
  exact pattern.label_ne_name color label member same

/-- Over any facts a pattern has one model. -/
theorem existsUnique_model (suits : pattern.Suits board) (named : color.name ∉ inputs)
    (built : pattern.build color = .ok program) (given : World) : ∃! world, program.Model given world := by
  have apart : ∀ label ∈ pattern.labels, ∀ relation ∈ [Relation.grid, color.name], label color ≠ relation := by
    intro label member
    have grid := pattern.label_ne_input color label member Relation.grid (by decide)
    exact List.forall_mem_cons.mpr ⟨grid, List.forall_mem_singleton.mpr (pattern.label_ne_name color label member)⟩
  cases pattern with
  | border rows cols kind =>
    cases border_of_ok built
    exact existsUnique_spreading_of_looks (looks_ringRules _ _ color) (apart _ (List.mem_singleton_self _)) given
  | sources clues kind =>
    cases built
    exact existsUnique_reachFromAll given
  | reached clues kind =>
    cases built
    simp only [Program.model_append_constraints (reachedFromSome_constraints color kind)]
    exact existsUnique_reachFromAll given
  | bits kind =>
    cases built
    have unseeded : Unseeded color := fun set same => named (same ▸ bitSeed_mem_inputs set)
    have unique : ∃! world, (numbered [] 0 color kind).Model given world := existsUnique_numbered unseeded given
    exact unique
  | rectangles =>
    cases built
    exact existsUnique_rectangles color given
  | noRectangle =>
    cases built
    exact existsUnique_spreading_of_looks (looks_bendRules color) (apart _ (List.mem_singleton_self _)) given
  | block height width corner =>
    cases (block_of_ok built).2
    refine Program.Flat.existsUnique_model (fun head body statement => ?_) given
    cases List.mem_singleton.mp statement
  | shapes name pieces memo =>
    obtain ⟨registering, rfl, registered⟩ := shapes_of_ok suits built
    simp only [Program.model_append_constraints (coveredByPieces_constraints name color)]
    exact (Piece.stratified registered).existsUnique_model given

section Follow

variable (suits : pattern.Suits board) (built : pattern.build color = .ok program)
  (built' : pattern.build color' = .ok program')
include suits built built'

theorem carries (parallel : Parallel board board' pattern.labels color color' program program' one two) :
    ∀ label ∈ pattern.labels, ∀ values, one ⟨label color, values⟩ → two ⟨label color', values⟩ := by
  cases pattern with
  | border rows cols kind =>
    cases border_of_ok built
    cases border_of_ok built'
    have inRange := And.intro rows.inRange.2 cols.inRange.2
    obtain ⟨tall, wide⟩ := suits
    have bounded : board.Bounded := by
      unfold Board.Bounded
      omega
    rw [tall, wide, Int.toNat_natCast, Int.toNat_natCast] at parallel
    exact spreading_carries parallel fun place body listed outer binding met =>
      ringRules_follow parallel.alike bounded listed met
  | sources clues kind =>
    cases built
    cases built'
    exact reachFromAll_carries parallel
  | reached clues kind =>
    cases built
    cases built'
    exact reachFromAll_carries
      (parallel.of_append (reachedFromSome_constraints color kind) (reachedFromSome_constraints color' kind))
  | bits kind =>
    cases built
    cases built'
    exact numbered_carries [] 0 parallel
  | rectangles =>
    cases built
    cases built'
    exact rectangles_carries parallel
  | noRectangle =>
    cases built
    cases built'
    exact spreading_carries parallel fun place body listed outer binding met =>
      bendRules_follow parallel.alike listed met
  | block height width corner => exact List.forall_mem_nil _
  | shapes name pieces memo =>
    obtain ⟨registering, rfl, registered⟩ := shapes_of_ok suits built
    obtain ⟨registering', rfl, registered'⟩ := shapes_of_ok suits built'
    have parallel :=
      parallel.of_append (coveredByPieces_constraints name color) (coveredByPieces_constraints name color')
    -- an occurrence looks at what touches it, so touching has to agree both ways first
    have ofTouch := parallel.of_subset fun label => List.mem_append_right (Piece.shapeLabels name)
    have touched := Piece.touching_carries registered' registered ofTouch.symm
    refine List.forall_mem_append.mpr ⟨?_, Piece.touching_carries registered registered' ofTouch⟩
    refine Piece.shapes_carries registered registered' (parallel.of_subset fun label => List.mem_append_left _) ?_
    exact fun kind => touched _ (Piece.mem_touchLabels.mpr ⟨kind, rfl⟩)

theorem violated (alike : Alike board board' color color' one two)
    (same : ∀ label ∈ pattern.labels, ∀ values, one ⟨label color, values⟩ ↔ two ⟨label color', values⟩) :
    program.Violated one → program'.Violated two := by
  cases pattern with
  | border rows cols kind =>
    cases border_of_ok built
    cases border_of_ok built'
    exact spreading_violated alike fun values => (same _ (List.mem_singleton_self _) values).mpr
  | sources clues kind =>
    cases built
    cases built'
    exact reachFromAll_violated alike (same _ (List.mem_singleton_self _))
  | reached clues kind =>
    cases built
    cases built'
    have reached := same _ (List.mem_singleton_self _)
    rw [Program.violated_append, Program.violated_append]
    exact Or.imp (reachFromAll_violated alike reached) (reachedFromSome_violated alike reached)
  | bits kind =>
    cases built
    cases built'
    exact numbered_violated [] 0 alike fun set => same _ (mem_bitLabels.mpr ⟨set, rfl⟩)
  | rectangles =>
    cases built
    cases built'
    exact rectangles_violated alike fun role isRole => same _ (mem_roleLabels.mpr ⟨role, isRole, rfl⟩)
  | noRectangle =>
    cases built
    cases built'
    rw [noRectangle_eq, noRectangle_eq]
    exact spreading_violated alike fun values => (same _ (List.mem_singleton_self _) values).mpr
  | block height width corner =>
    obtain ⟨⟨tall, wide⟩, rfl⟩ := block_of_ok built
    cases (block_of_ok built').2
    exact (noBlock_violated alike tall wide corner).mp
  | shapes name pieces memo =>
    obtain ⟨registering, rfl, registered⟩ := shapes_of_ok suits built
    obtain ⟨registering', rfl, registered'⟩ := shapes_of_ok suits built'
    have unbroken (color : Color) {registering : Program}
        (registered : ∀ statement,
          statement ∈ registering.statements ↔ Piece.Registers name color .grid pieces statement)
        (world : World) : ¬ registering.Violated world := by
      rintro ⟨body, statement, _⟩
      obtain ⟨_, _, same, _⟩ := Piece.registers_iff.mp ((registered _).mp statement)
      cases same
    rw [Program.violated_append, Program.violated_append, or_iff_right (unbroken color registered one),
      or_iff_right (unbroken color' registered' two)]
    have covering := same (fun color => covering name color .grid)
      (List.mem_append_left _ (List.mem_cons_of_mem _ (List.mem_singleton_self _)))
    exact Piece.coveredByPieces_violated alike fun values => (covering values).mpr

/-- Filled by two colors for the same cells, a pattern labels the same and breaks its constraints alike. -/
theorem agree (suits' : pattern.Suits board')
    (parallel : Parallel board board' pattern.labels color color' program program' one two) :
    (∀ label ∈ pattern.labels, ∀ values, one ⟨label color, values⟩ ↔ two ⟨label color', values⟩) ∧
      (program.Violated one ↔ program'.Violated two) := by
  have same : ∀ label ∈ pattern.labels, ∀ values, one ⟨label color, values⟩ ↔ two ⟨label color', values⟩ :=
    fun label member values => ⟨carries suits built built' parallel label member values,
      carries suits' built' built parallel.symm label member values⟩
  refine ⟨same, violated suits built built' parallel.alike same, ?_⟩
  exact violated suits' built' built parallel.symm.alike fun label member values => (same label member values).symm

end Follow

end Pattern

end GridPuzzle.Template
