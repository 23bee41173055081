import GridPuzzle.Proofs.Template.Alike
import GridPuzzle.Proofs.Template.Block
import GridPuzzle.Proofs.Template.Border
import GridPuzzle.Proofs.Template.FullBlock
import GridPuzzle.Proofs.Template.Piece
import GridPuzzle.Proofs.Template.SourceBits

/-!
Templates under another color for the same cells. Each rule of a template has its counterpart for the other color,
which holds under the same binding, and so has each constraint. A negated color may need other rules for this, as it
holds off the grid too.
-/
namespace GridPuzzle.Template

open Program (violated_constraint)

variable {board board' : Board} {color color' : Color} {one two : World} {kind : Adjacency} {row col : Int}

section Spreading

variable {label : Color → String} {rules rules' : List (Place × List Literal)}

theorem spreading_carries
    (parallel : Parallel board board' [label] color color' (spreading (label color) color kind rules)
      (spreading (label color') color' kind rules') one two)
    (starts : ∀ place body, (place, body) ∈ rules → ∀ outer binding,
      (∀ literal ∈ body, literal.Holds one outer binding) →
      ∃ body', (place, body') ∈ rules' ∧ ∀ outer, ∀ literal ∈ body', literal.Holds two outer binding) :
    ∀ label' ∈ [label], ∀ values, one ⟨label' color, values⟩ → two ⟨label' color', values⟩ := by
  refine parallel.carries ?_ ?_
  · intro label' _ args statement
    exact absurd statement fact_not_mem_spreading
  · intro label' member args body statement binding met carried
    obtain rfl := List.mem_singleton.mp member
    rcases rule_mem_spreading.mp statement with ⟨⟨place, body⟩, listed, head, rfl⟩ | ⟨head, rfl⟩
    · obtain ⟨body', listed', met'⟩ := starts place body listed _ binding met
      cases head
      exact ⟨body', rule_mem_spreading.mpr (.inl ⟨(place, body'), listed', rfl, rfl⟩), met'⟩
    · cases head
      have before := carried label' member _ List.mem_cons_self
      exact ⟨_, rule_mem_spreading.mpr (.inr ⟨rfl, rfl⟩), fun outer => parallel.alike.spread met before⟩

theorem spreading_violated {label label' : String} (alike : Alike board board' color color' one two)
    (same : ∀ values, two ⟨label', values⟩ → one ⟨label, values⟩) :
    (spreading label color kind rules).Violated one → (spreading label' color' kind rules').Violated two := by
  refine Program.violated_of_followed fun body statement binding met => ?_
  rw [constraint_mem_spreading.mp statement] at met
  exact ⟨_, constraint_mem_spreading.mpr rfl, alike.uncovered same met⟩

end Spreading

theorem ringRules_follow (alike : Alike board board' color color' one two) (bounded : board.Bounded) {place : Place}
    {body : List Literal} (listed : (place, body) ∈ ringRules board.rows board.cols color) {outer : List String}
    {binding : Binding} (met : ∀ literal ∈ body, literal.Holds one outer binding) :
    ∃ body', (place, body') ∈ ringRules board.rows board.cols color' ∧
      ∀ outer, ∀ literal ∈ body', literal.Holds two outer binding := by
  obtain ⟨cell, onRing, same⟩ := List.mem_map.mp listed
  cases same
  have inside := ((mem_ring board.positive.2).mp onRing).1
  have covers : board.Covers cell.1 cell.2 := (Board.covers_iff bounded).mpr (by omega)
  refine ⟨_, List.mem_map.mpr ⟨cell, onRing, rfl⟩, fun outer => List.forall_mem_singleton.mpr ?_⟩
  exact alike.on (ringPlace_stands binding cell) covers (met _ (List.mem_singleton_self _))

theorem lacks_follow (alike : Alike board board' color color' one two) {lacking : Cell}
    (lacks : Lacks board color row col lacking) : Lacks board' color' row col lacking :=
  ⟨alike.covers_iff.mp lacks.first, alike.covers_iff.mp lacks.last, alike.sheet ▸ lacks.shades⟩

theorem bendRules_follow (alike : Alike board board' color color' one two) {place : Place} {body : List Literal}
    (listed : (place, body) ∈ bendRules color) {outer : List String} {binding : Binding}
    (met : ∀ literal ∈ body, literal.Holds one outer binding) :
    ∃ body', (place, body') ∈ bendRules color' ∧ ∀ outer, ∀ literal ∈ body', literal.Holds two outer binding := by
  obtain ⟨lacking, isCorner, p, member, other, rfl, rfl⟩ := mem_bendRules.mp listed
  obtain ⟨row, col, _, here⟩ := alike.first.onGrid_here.mp ((forall_bendBody isCorner).mp met).1
  have lacks := lacks_follow alike ((bendBody_holds alike.first here isCorner).mp met)
  exact ⟨_, mem_bendRules.mpr ⟨lacking, isCorner, p, member, other, rfl, rfl⟩,
    fun outer => (bendBody_holds alike.second here isCorner).mpr lacks⟩

section Sources

variable {clues : List Clue}

def sourceLabels (kind : Adjacency) : List (Color → String) := [fun color => sourceLabel (some color) kind]

theorem reachFromAll_carries
    (parallel : Parallel board board' (sourceLabels kind) color color' (reachFromAll clues (some color) kind)
      (reachFromAll clues (some color') kind) one two) :
    ∀ label ∈ sourceLabels kind, ∀ values, one ⟨label color, values⟩ → two ⟨label color', values⟩ := by
  refine parallel.carries ?_ ?_
  · intro label member args statement
    obtain rfl := List.mem_singleton.mp member
    obtain ⟨clue, listed, same⟩ := fact_mem_reachFromAll.mp statement
    cases same
    exact fact_mem_reachFromAll.mpr ⟨clue, listed, rfl⟩
  · intro label member args body statement binding met carried
    obtain rfl := List.mem_singleton.mp member
    obtain ⟨clue, listed, head, rfl⟩ := rule_mem_reachFromAll.mp statement
    cases head
    have before := carried _ (List.mem_singleton_self _) _ List.mem_cons_self
    exact ⟨_, rule_mem_reachFromAll.mpr ⟨clue, listed, rfl, rfl⟩, fun outer => parallel.alike.spread met before⟩

variable (alike : Alike board board' color color' one two)
  (same : ∀ values, one ⟨sourceLabel (some color) kind, values⟩ ↔ two ⟨sourceLabel (some color') kind, values⟩)
include alike same

theorem reachFromAll_violated : (reachFromAll clues (some color) kind).Violated one →
    (reachFromAll clues (some color') kind).Violated two := by
  have reached {binding : Binding} {start place : Place}
      (holds : (Test.holds (reaches (sourceLabel (some color) kind) start place)).Holds one binding) :
      (Test.holds (reaches (sourceLabel (some color') kind) start place)).Holds two binding :=
    Test.holds_of_carries (fun values => (same values).mp) holds
  refine Program.violated_of_followed fun body statement binding met => ?_
  obtain ⟨clue, listed, ⟨cell, required, rfl⟩ | ⟨cell, forbidden, rfl⟩ | ⟨walled, place, side, rfl⟩⟩ :=
    constraint_mem_reachFromAll.mp statement
  · refine ⟨_, constraint_mem_reachFromAll.mpr ⟨clue, listed, .inl ⟨cell, required, rfl⟩⟩,
      List.forall_mem_singleton.mpr ?_⟩
    exact Test.fails_of_carries (fun values => (same values).mpr) (met _ (List.mem_singleton_self _))
  · exact ⟨_, constraint_mem_reachFromAll.mpr ⟨clue, listed, .inr (.inl ⟨cell, forbidden, rfl⟩)⟩,
      List.forall_mem_singleton.mpr (reached (met _ (List.mem_singleton_self _)))⟩
  · simp only [List.forall_mem_cons, List.not_mem_nil, false_imp_iff, implies_true, and_true] at met
    have walls : ∀ place ∈ Board.wallSides, place.2 ∈ inputs := by decide
    have wall := alike.input (walls place side) met.2.2
    refine ⟨_, constraint_mem_reachFromAll.mpr ⟨clue, listed, .inr (.inr ⟨walled, place, side, rfl⟩)⟩, ?_⟩
    exact List.forall_mem_cons.mpr ⟨reached met.1,
      List.forall_mem_cons.mpr ⟨reached met.2.1, List.forall_mem_singleton.mpr wall⟩⟩

theorem reachedFromSome_violated : (reachedFromSome color kind).Violated one →
    (reachedFromSome color' kind).Violated two := by
  refine Program.violated_of_followed fun body statement binding met => ?_
  have only : ∀ color : Color, .constraint body ∈ (reachedFromSome color kind).statements ↔
      body = inColor (some color) ++ [.fails (reaches (sourceLabel (some color) kind) ⟨.anon, .anon⟩ .here)] := by
    intro color
    simp [reachedFromSome, inColor]
  rw [(only color).mp statement] at met
  exact ⟨_, List.mem_singleton_self _, alike.uncovered (fun values => (same values).mpr) met⟩

end Sources

def bitLabels (kind : Adjacency) : List (Color → String) :=
  [fun color => bitFlag true color kind, fun color => bitFlag false color kind]

theorem mem_bitLabels {label : Color → String} :
    label ∈ bitLabels kind ↔ ∃ set, label = fun color => bitFlag set color kind := by
  rw [bitLabels, List.mem_pair, Bool.exists_bool, or_comm]

theorem bitSeed_mem_inputs (set : Bool) : bitSeed set ∈ inputs := by
  cases set <;> decide

theorem numbered_carries (sources : List Numbered) (count : Nat)
    (parallel : Parallel board board' (bitLabels kind) color color' (numbered sources count color kind)
      (numbered sources count color' kind) one two) :
    ∀ label ∈ bitLabels kind, ∀ values, one ⟨label color, values⟩ → two ⟨label color', values⟩ := by
  refine parallel.carries ?_ ?_
  · intro label member args statement
    obtain ⟨set, rfl⟩ := mem_bitLabels.mp member
    obtain ⟨own, _, bit, _, same⟩ := fact_mem_numbered.mp statement
    exact absurd (congrArg Atom.relation same).symm bitSeed_ne_bitFlag
  · intro label member args body statement binding met carried
    obtain ⟨set, rfl⟩ := mem_bitLabels.mp member
    obtain ⟨set', head, either⟩ := rule_mem_numbered.mp statement
    obtain rfl : set = set' := bitFlag_inj.mp (congrArg Atom.relation head)
    cases head
    rcases either with rfl | rfl
    · refine ⟨_, rule_mem_numbered.mpr ⟨set, rfl, .inl rfl⟩, fun outer => List.forall_mem_singleton.mpr ?_⟩
      exact parallel.alike.input (bitSeed_mem_inputs set) (met _ (List.mem_singleton_self _))
    · have before := carried _ member _ List.mem_cons_self
      exact ⟨_, rule_mem_numbered.mpr ⟨set, rfl, .inr rfl⟩, fun outer => parallel.alike.spread met before⟩

theorem numbered_violated (sources : List Numbered) (count : Nat) (alike : Alike board board' color color' one two)
    (same : ∀ set values, one ⟨bitFlag set color kind, values⟩ ↔ two ⟨bitFlag set color' kind, values⟩) :
    (numbered sources count color kind).Violated one → (numbered sources count color' kind).Violated two := by
  refine Program.violated_of_followed fun body statement binding met => ?_
  rcases constraint_mem_numbered.mp statement with rfl | rfl
  · have flagged (set : Bool)
        (holds : (Test.holds (atPosition (bitFlag set color kind) .here)).Holds one binding) :
        (Test.holds (atPosition (bitFlag set color' kind) .here)).Holds two binding :=
      Test.holds_of_carries (fun values => (same set values).mp) holds
    rw [List.forall_mem_cons, List.forall_mem_singleton] at met
    exact ⟨_, constraint_mem_numbered.mpr (.inl rfl),
      List.forall_mem_cons.mpr ⟨flagged true met.1, List.forall_mem_singleton.mpr (flagged false met.2)⟩⟩
  · have unflagged (set : Bool)
        (fails : (Test.fails (atAnyPosition (bitFlag set color kind) .here)).Holds one binding) :
        (Test.fails (atAnyPosition (bitFlag set color' kind) .here)).Holds two binding :=
      Test.fails_of_carries (fun values => (same set values).mpr) fails
    have rest := (List.forall_mem_append.mp met).2
    rw [List.forall_mem_cons, List.forall_mem_singleton] at rest
    exact ⟨_, constraint_mem_numbered.mpr (.inr rfl), alike.inColor_append met
      (List.forall_mem_cons.mpr ⟨unflagged true rest.1, List.forall_mem_singleton.mpr (unflagged false rest.2)⟩)⟩

def roleLabels : List (Color → String) := Roles.words.map fun role color => Roles.label color role

theorem mem_roleLabels {label : Color → String} :
    label ∈ roleLabels ↔ ∃ role ∈ Roles.words, (fun color => Roles.label color role) = label :=
  List.mem_map

theorem none_eq (place : Place) : (Roles.ofColor color).none place =
    Roles.words.map fun role => .fails (.cell (Roles.label color role) place) := rfl

/-- A place lacks the one color and then the other, each in the ways that its rules list. -/
theorem unmatched_follow (alike : Alike board board' color color' one two) {place : Place} {binding : Binding}
    (stands : place.Stands binding row col) {literal : Literal} (listed : literal ∈ unmatched color place)
    {outer : List String} (holds : literal.Holds one outer binding) :
    ∃ literal' ∈ unmatched color' place, ∀ outer, literal'.Holds two outer binding := by
  have unshaded := not_shaded_of_unmatched alike.first stands listed holds
  rw [alike.sheet] at unshaded
  exact exists_unmatched alike.second stands unshaded

theorem mem_aroundInner_iff {left top : String} : (left, top) ∈ (Roles.ofColor color).aroundInner ↔
    (∃ role ∈ ["left", "remain"], Roles.label color role = left) ∧
      ∃ role ∈ ["up", "remain"], Roles.label color role = top := by
  simp [Roles.mem_aroundInner, eq_comm]

/-- A role goes on from a cell on one side, where the cell on another side lacks the color. -/
private theorem edge_follow (alike : Alike board board' color color' one two) {toward off : Place} {role : String}
    {binding : Binding} (stands : off.Stands binding row col) {literal : Literal}
    (listed : literal ∈ unmatched color off) {outer : List String} (met : ∀ other ∈ inColor (some color) ++
      [.holds (.cell (Roles.label color role) toward), literal], other.Holds one outer binding)
    (carried : (Test.holds (.cell (Roles.label color' role) toward)).Holds two binding) :
    ∃ literal' ∈ unmatched color' off, ∀ outer, ∀ other ∈ inColor (some color') ++
      [.holds (.cell (Roles.label color' role) toward), literal'], other.Holds two outer binding := by
  obtain ⟨literal', listed', holds⟩ := unmatched_follow alike stands listed (met literal (by simp))
  refine ⟨literal', listed', fun outer => alike.inColor_append met ?_⟩
  exact List.forall_mem_cons.mpr ⟨carried, List.forall_mem_singleton.mpr (holds outer)⟩

theorem rectangles_carries
    (parallel : Parallel board board' roleLabels color color' (rectangles color false) (rectangles color' false)
      one two) :
    ∀ label ∈ roleLabels, ∀ values, one ⟨label color, values⟩ → two ⟨label color', values⟩ := by
  have alike := parallel.alike
  refine parallel.carries ?_ ?_
  · intro label _ args statement
    simp [rectangles, colorRoles] at statement
  · intro label member args body statement binding met carried
    obtain ⟨role, isRole, rfl⟩ := mem_roleLabels.mp member
    have before {role : String} (isRole : role ∈ Roles.words) (place : Place)
        (listed : .holds (.cell (Roles.label color role) place) ∈ body) :
        (Test.holds (.cell (Roles.label color' role) place)).Holds two binding :=
      carried _ (mem_roleLabels.mpr ⟨role, isRole, rfl⟩) _ listed
    rcases rule_mem_rectangles.mp statement with ⟨left, inLeft, top, inTop, head, rfl⟩ |
      ⟨left, inLeft, along, isAlong, head, rfl⟩ | ⟨top, inTop, along, isAlong, head, rfl⟩ |
      ⟨⟨left, top⟩, around, head, rfl⟩
    -- the head tells which role it is, and the body that it is about a cell of the grid
    all_goals
      obtain rfl := Roles.label_eq.mp (congrArg Atom.relation head)
      obtain rfl : args = Place.here.args := congrArg Atom.args head
      obtain ⟨row, col, _, here⟩ := alike.first.onGrid_here.mp (met _ List.mem_cons_self)
    · obtain ⟨left', inLeft', noLeft⟩ :=
        unmatched_follow alike (before_stands here) inLeft (met left (by simp))
      obtain ⟨top', inTop', noTop⟩ := unmatched_follow alike (above_stands here) inTop (met top (by simp))
      refine ⟨_, rule_mem_rectangles.mpr (.inl ⟨left', inLeft', top', inTop', rfl, rfl⟩), fun outer => ?_⟩
      exact alike.inColor_append met
        (List.forall_mem_cons.mpr ⟨noLeft outer, List.forall_mem_singleton.mpr (noTop outer)⟩)
    · obtain ⟨start, isStart, rfl⟩ : ∃ start ∈ ["upleft", "left"], Roles.label color start = along := by
        simpa [Roles.ofColor_eq, eq_comm] using isAlong
      have along := before (List.mem_append_left ["up", "remain"] isStart) above (by simp)
      obtain ⟨left', inLeft', met'⟩ := edge_follow alike (before_stands here) inLeft met along
      exact ⟨_, rule_mem_rectangles.mpr (.inr (.inl ⟨left', inLeft', _,
        List.mem_map_of_mem (f := Roles.label color') isStart, rfl, rfl⟩)), met'⟩
    · obtain ⟨start, isStart, rfl⟩ : ∃ start ∈ ["upleft", "up"], Roles.label color start = along := by
        simpa [Roles.ofColor_eq, eq_comm] using isAlong
      have isRole : ∀ start ∈ ["upleft", "up"], start ∈ Roles.words := by decide
      have along := before (isRole start isStart) Template.before (by simp)
      obtain ⟨top', inTop', met'⟩ := edge_follow alike (above_stands here) inTop met along
      exact ⟨_, rule_mem_rectangles.mpr (.inr (.inr (.inl ⟨top', inTop', _,
        List.mem_map_of_mem (f := Roles.label color') isStart, rfl, rfl⟩))), met'⟩
    · obtain ⟨⟨left, isLeft, rfl⟩, top, isTop, rfl⟩ := mem_aroundInner_iff.mp around
      have roles : ∀ role ∈ ["left", "up", "remain"], role ∈ Roles.words := by decide
      have leftHolds := before (roles left (by grind)) Template.before (by simp)
      have topHolds := before (roles top (by grind)) above (by simp)
      refine ⟨_, rule_mem_rectangles.mpr (.inr (.inr (.inr ⟨_, mem_aroundInner_iff.mpr
        ⟨⟨left, isLeft, rfl⟩, top, isTop, rfl⟩, rfl, rfl⟩))), fun outer => ?_⟩
      exact List.forall_mem_cons.mpr ⟨alike.onGrid (met _ List.mem_cons_self),
        List.forall_mem_cons.mpr ⟨leftHolds, List.forall_mem_singleton.mpr topHolds⟩⟩

theorem rectangles_violated (alike : Alike board board' color color' one two)
    (same : ∀ role ∈ Roles.words, ∀ values,
      one ⟨Roles.label color role, values⟩ ↔ two ⟨Roles.label color' role, values⟩) :
    (rectangles color false).Violated one → (rectangles color' false).Violated two := by
  refine Program.violated_of_followed fun body statement binding met => ?_
  rcases constraint_mem_rectangles.mp statement with rfl | rfl
  · refine ⟨_, constraint_mem_rectangles.mpr (.inl rfl), alike.inColor_append met ?_⟩
    have without := (List.forall_mem_append.mp met).2
    rw [none_eq, List.forall_mem_map] at without ⊢
    exact fun role isRole => Test.fails_of_carries (fun values => (same role isRole values).mpr) (without role isRole)
  · simp only [List.forall_mem_cons, List.not_mem_nil, false_imp_iff, implies_true, and_true] at met
    obtain ⟨row, col, covers, here⟩ := alike.first.onGrid_here.mp met.1
    have inner : (Test.holds (.cell (Roles.label color' "remain") .here)).Holds two binding :=
      Test.holds_of_carries (fun values => (same "remain" (by decide) values).mp) met.2.1
    exact ⟨_, constraint_mem_rectangles.mpr (.inr rfl), List.forall_mem_cons.mpr ⟨alike.onGrid met.1,
      List.forall_mem_cons.mpr ⟨inner, List.forall_mem_singleton.mpr (alike.off here.stands covers met.2.2)⟩⟩⟩

theorem noBlock_violated (alike : Alike board board' color color' one two) {height width : Coord}
    (tall : 0 < height.val) (wide : 0 < width.val) (corner : Option Cell) :
    Program.Violated ⟨[.constraint (blockBody color height width ((corner.map Place.ofCell).getD .here))]⟩ one ↔
      Program.Violated ⟨[.constraint (blockBody color' height width ((corner.map Place.ofCell).getD .here))]⟩ two := by
  rw [violated_constraint, violated_constraint]
  cases corner with
  | none =>
    exact (breaks_blockBody alike.first tall wide).trans
      (alike.sheet ▸ (breaks_blockBody alike.second tall wide).symm)
  | some corner =>
    exact (breaks_blockBody_at alike.first corner).trans
      (alike.sheet ▸ (breaks_blockBody_at alike.second corner).symm)

namespace Piece

variable {name : String} {pieces : List Piece} {program program' : Program}

def touchLabels (name : String) : List (Color → String) :=
  Adjacency.all.map fun kind color => touching name color kind

def shapeLabels (name : String) : List (Color → String) :=
  [fun color => detector name color .grid, fun color => covering name color .grid]

theorem mem_touchLabels {label : Color → String} :
    label ∈ touchLabels name ↔ ∃ kind, (fun color => touching name color kind) = label := by
  have all (kind : Adjacency) : kind ∈ Adjacency.all := by cases kind <;> decide
  simp [touchLabels, all]

/-- The cells of an occurrence have the color, its pairs are given, and labels tell what it must not touch. -/
theorem body_follow (alike : Alike board board' color color' one two) {piece : Piece} {shape : Polyomino}
    (normal : shape.Normal) {linked outer : List (Cell × Cell)} {scope : List String} {binding : Binding}
    (touched : ∀ kind values, two ⟨touching name color' kind, values⟩ → one ⟨touching name color kind, values⟩)
    (met : ∀ literal ∈ (piece.entry name color .grid).body shape linked outer, literal.Holds one scope binding) :
    ∀ scope', ∀ literal ∈ (piece.entry name color' .grid).body shape linked outer,
      literal.Holds two scope' binding := by
  intro scope'
  obtain ⟨row, col, here⟩ := here_of_body alike.first normal met
  simp only [Registration.body, Registration.cellsMatch, List.forall_mem_append, List.forall_mem_flatMap,
    List.forall_mem_map, List.forall_mem_cons, List.not_mem_nil, false_imp_iff, implies_true, and_true] at met ⊢
  obtain ⟨⟨cells, joined⟩, apart⟩ := met
  refine ⟨⟨fun own inside => ?_, fun pair member => alike.joins (joined pair member)⟩, fun pair member => ?_⟩
  · obtain ⟨onGrid, on⟩ := cells own inside
    have stands := here.step_stands own
    exact ⟨alike.onGrid onGrid, alike.on stands (alike.first.grid_cell.mp ((holds_cell stands).mp onGrid)) on⟩
  · exact Test.fails_of_carries (touched piece.kind) (apart pair member)

section Registered

variable (registered : ∀ statement, statement ∈ program.statements ↔ Registers name color .grid pieces statement)
  (registered' : ∀ statement, statement ∈ program'.statements ↔ Registers name color' .grid pieces statement)
include registered registered'

theorem touching_carries
    (parallel : Parallel board board' (touchLabels name) color color' program program' one two) :
    ∀ label ∈ touchLabels name, ∀ values, one ⟨label color, values⟩ → two ⟨label color', values⟩ := by
  have alike := parallel.alike
  refine parallel.carries ?_ ?_
  · intro label _ args statement
    exact absurd statement (no_fact registered _)
  · intro label member args body statement binding met _
    obtain ⟨kind, rfl⟩ := mem_touchLabels.mp member
    obtain ⟨piece, listed, turns, ⟨strict, head, rfl⟩ | ⟨index, shape, linked, outer, _, _, ⟨head, _⟩ |
      ⟨own, _, head, _⟩⟩⟩ := (rule_iff registered).mp statement
    · obtain rfl : kind = piece.kind := touching_injective name color (congrArg Atom.relation head)
      obtain rfl : args = Place.here.args ++ Place.other.args := congrArg Atom.args head
      rw [List.forall_mem_cons, List.forall_mem_singleton] at met
      refine ⟨_, (rule_iff registered').mpr ⟨piece, listed, turns, .inl ⟨strict, rfl, rfl⟩⟩, fun outer => ?_⟩
      refine List.forall_mem_cons.mpr ⟨alike.joins met.1, List.forall_mem_singleton.mpr ?_⟩
      obtain ⟨fact, denoted, inWorld⟩ := met.1
      obtain ⟨a, b, inside, rfl⟩ := alike.within piece.kind fact denoted.1 inWorld
      obtain ⟨_, _, there⟩ := here_other_denotes_pair.mp denoted
      exact alike.on there.stands (Board.covers_cell.mpr inside.2) met.2
    · exact absurd (congrArg Atom.relation head) (touching_ne_detector kind)
    · exact absurd (congrArg Atom.relation head) (touching_ne_covering kind)

theorem shapes_carries
    (parallel : Parallel board board' (shapeLabels name) color color' program program' one two)
    (touched : ∀ kind values, two ⟨touching name color' kind, values⟩ → one ⟨touching name color kind, values⟩) :
    ∀ label ∈ shapeLabels name, ∀ values, one ⟨label color, values⟩ → two ⟨label color', values⟩ := by
  have alike := parallel.alike
  refine parallel.carries ?_ ?_
  · intro label _ args statement
    exact absurd statement (no_fact registered _)
  · intro label member args body statement binding met carried
    obtain ⟨piece, listed, turns, ⟨_, head, _⟩ | ⟨index, shape, linked, outer, oriented, surveyed, ⟨head, rfl⟩ |
      ⟨own, inside, head, rfl⟩⟩⟩ := (rule_iff registered).mp statement
    · rcases List.mem_pair.mp member with rfl | rfl
      · exact absurd (congrArg Atom.relation head).symm (touching_ne_detector piece.kind)
      · exact absurd (congrArg Atom.relation head).symm (touching_ne_covering piece.kind)
    · rcases List.mem_pair.mp member with rfl | rfl
      · obtain rfl := congrArg Atom.args head
        exact ⟨_, (rule_iff registered').mpr ⟨piece, listed, turns, .inr ⟨index, shape, linked, outer, oriented,
          ⟨surveyed.1, surveyed.2⟩, .inl ⟨rfl, rfl⟩⟩⟩, body_follow alike oriented.normal touched met⟩
      · exact absurd (congrArg Atom.relation head).symm detector_ne_covering
    · rcases List.mem_pair.mp member with rfl | rfl
      · exact absurd (congrArg Atom.relation head) detector_ne_covering
      · obtain rfl := congrArg Atom.args head
        refine ⟨_, (rule_iff registered').mpr ⟨piece, listed, turns, .inr ⟨index, shape, linked, outer, oriented,
          ⟨surveyed.1, surveyed.2⟩, .inr ⟨own, inside, rfl, rfl⟩⟩⟩, fun outer => List.forall_mem_singleton.mpr ?_⟩
        exact carried _ List.mem_cons_self _ List.mem_cons_self

end Registered

theorem coveredByPieces_violated (alike : Alike board board' color color' one two)
    (same : ∀ values, two ⟨covering name color' .grid, values⟩ → one ⟨covering name color .grid, values⟩) :
    (coveredByPieces name color .grid).Violated one → (coveredByPieces name color' .grid).Violated two := by
  refine Program.violated_of_followed fun body statement binding met => ?_
  have only : ∀ color : Color, .constraint body ∈ (coveredByPieces name color .grid).statements ↔
      body = inColor (some color) ++ [.fails ⟨covering name color .grid, Place.here.args ++ [.anon, .anon]⟩] := by
    intro color
    simp [coveredByPieces, inColor, Scope.covers, Scope.keyed]
  rw [(only color).mp statement] at met
  exact ⟨_, List.mem_singleton_self _, alike.uncovered same met⟩

end Piece

end GridPuzzle.Template
