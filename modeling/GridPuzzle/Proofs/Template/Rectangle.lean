import GridPuzzle.Template.Rectangle
import GridPuzzle.Proofs.Board.Boxes
import GridPuzzle.Proofs.Label
import GridPuzzle.Proofs.Plane.Roles

/-!
The rules about rectangles and what is read off a board agree. The roles of a model are those of the
plane for the cells of the color, so that a constraint fails exactly if these cells bend somewhere.
-/
namespace GridPuzzle.Template

variable {board : Board} {color : Color} {world : World} {row col : Int}

namespace Roles

/-- What the labels of a color start with. -/
def label (color : Color) (role : String) : String := Label.join role [.ofColor color]

theorem ofColor_eq (color : Color) : ofColor color =
    ⟨label color "upleft", label color "left", label color "up", label color "remain"⟩ := rfl

theorem label_eq {role role' : String} : label color role = label color role' ↔ role = role' :=
  (Label.join_injective _).eq_iff

theorem mem_aroundInner {left top : String} : (left, top) ∈ (ofColor color).aroundInner ↔
    (left = label color "left" ∨ left = label color "remain") ∧
      (top = label color "up" ∨ top = label color "remain") := by
  simp only [aroundInner, ofColor_eq, List.mem_cons, Prod.mk.injEq, List.not_mem_nil, or_false]
  tauto

theorem label_ne_name (role : String) : label color role ≠ color.name :=
  Label.join_ne_name (List.mem_singleton_self _)

def words : List String := ["upleft", "left", "up", "remain"]

theorem label_ne_grid {role : String} (isRole : role ∈ words) : label color role ≠ Relation.grid := by
  intro same
  have apart : ∀ role ∈ words, ¬ role.toList <+: Relation.grid.toList := by decide
  have start := Label.base_isPrefix role [.ofColor color]
  rw [show Label.join role [.ofColor color] = Relation.grid from same] at start
  exact apart role isRole start

end Roles

def shadingFacts (board : Board) (color : Color) : World := board.gridFacts.join (board.colorFacts color.name)

theorem rule_mem_rectangles {head : Atom} {body : List Literal} :
    .rule head body ∈ (rectangles color false).statements ↔
      (∃ left ∈ unmatched color before, ∃ top ∈ unmatched color above,
        head = .cell (Roles.ofColor color).corner .here ∧ body = inColor (some color) ++ [left, top]) ∨
      (∃ left ∈ unmatched color before, ∃ role ∈ [(Roles.ofColor color).corner, (Roles.ofColor color).left],
        head = .cell (Roles.ofColor color).left .here ∧
          body = inColor (some color) ++ [.holds (.cell role above), left]) ∨
      (∃ top ∈ unmatched color above, ∃ role ∈ [(Roles.ofColor color).corner, (Roles.ofColor color).top],
        head = .cell (Roles.ofColor color).top .here ∧
          body = inColor (some color) ++ [.holds (.cell role before), top]) ∨
      ∃ pair ∈ (Roles.ofColor color).aroundInner, head = .cell (Roles.ofColor color).inner .here ∧
        body = [.test (onGrid .here), .holds (.cell pair.1 before), .holds (.cell pair.2 above)] := by
  simp only [rectangles, colorRoles, inColor, Option.elim_some, List.mem_append, List.mem_flatMap, List.mem_map,
    List.mem_cons, Statement.rule.injEq, reduceCtorEq, List.not_mem_nil, or_false, Bool.false_eq_true, if_false, or_assoc,
    @eq_comm _ head, @eq_comm _ body]

theorem defines_rectangles {relation : String} (defines : (rectangles color false).Defines relation) :
    ∃ role ∈ Roles.words, Roles.label color role = relation := by
  rcases defines with ⟨atom, statement, _⟩ | ⟨head, body, statement, rfl⟩
  · simp [rectangles, colorRoles] at statement
  · rcases rule_mem_rectangles.mp statement with ⟨_, _, _, _, rfl, _⟩ | ⟨_, _, _, _, rfl, _⟩ |
      ⟨_, _, _, _, rfl, _⟩ | ⟨_, _, rfl, _⟩
    · exact ⟨"upleft", by decide, rfl⟩
    · exact ⟨"left", by decide, rfl⟩
    · exact ⟨"up", by decide, rfl⟩
    · exact ⟨"remain", by decide, rfl⟩

private theorem not_defines {relation : String}
    (apart : ∀ role ∈ Roles.words, Roles.label color role ≠ relation) :
    ¬ (rectangles color false).Defines relation := by
  intro defines
  obtain ⟨role, isRole, same⟩ := defines_rectangles defines
  exact apart role isRole same

private theorem not_defines_grid : ¬ (rectangles color false).Defines Relation.grid := by
  apply not_defines
  intro role isRole
  exact Roles.label_ne_grid isRole

private theorem not_defines_name : ¬ (rectangles color false).Defines color.name :=
  not_defines fun role _ => Roles.label_ne_name role

section Bodies

variable (shows : world.Shows board (some color)) {binding : Binding} {outer : List String}
include shows

theorem not_shaded_of_unmatched {place : Place} (stands : place.Stands binding row col)
    {literal : Literal} (listed : literal ∈ unmatched color place)
    (holds : literal.Holds world outer binding) : ¬ (board.colored color).Shades row col := by
  rw [shows.shades_colored]
  have off : (Literal.test (color.off place)).Holds world outer binding ↔ ¬ color.Matches world row col :=
    holds_off color stands
  intro both
  cases color with
  | positive name =>
    rw [List.mem_singleton.mp listed] at holds
    exact off.mp holds both.2
  | negated name =>
    have outside : (Literal.test (offGrid place)).Holds world outer binding ↔ ¬ board.Covers row col :=
      (fails_cell stands).trans (not_congr shows.grid_cell)
    rcases List.mem_pair.mp listed with rfl | rfl
    · exact outside.mp holds both.1
    · exact off.mp holds both.2

theorem exists_unmatched {place : Place} (stands : place.Stands binding row col)
    (unshaded : ¬ (board.colored color).Shades row col) :
    ∃ literal ∈ unmatched color place, ∀ outer, literal.Holds world outer binding := by
  rw [shows.shades_colored] at unshaded
  cases color with
  | positive name =>
    refine ⟨_, List.mem_singleton_self _, fun outer => ?_⟩
    apply (holds_off (.positive name) stands).mpr
    exact fun has => unshaded ⟨(shows.color_cell.mp has).covers, has⟩
  | negated name =>
    by_cases covers : board.Covers row col
    · refine ⟨_, List.mem_cons_of_mem _ (List.mem_singleton_self _), fun outer => ?_⟩
      apply (holds_off (.negated name) stands).mpr
      exact fun has => unshaded ⟨covers, has⟩
    · refine ⟨_, List.mem_cons_self, fun outer => ?_⟩
      apply (fails_cell stands).mpr
      exact fun given => covers (shows.grid_cell.mp given)

end Bodies

theorem above_stands {binding : Binding} (here : Place.Here binding row col) :
    above.Stands binding (row - 1) col := by
  have stands := here.step_stands (.of (-1) 0)
  rw [show col + (Cell.of (-1) 0).col.val = col from Int.add_zero col] at stands
  exact stands

theorem before_stands {binding : Binding} (here : Place.Here binding row col) :
    before.Stands binding row (col - 1) := by
  have stands := here.step_stands (.of 0 (-1))
  rw [show row + (Cell.of 0 (-1)).row.val = row from Int.add_zero row] at stands
  exact stands

theorem cell_inj {relation relation' : String} {place : Place} :
    Atom.cell relation place = Atom.cell relation' place ↔ relation = relation' := by
  simp [Atom.cell]

private theorem corner_rule {body : List Literal} :
    .rule (.cell (Roles.label color "upleft") .here) body ∈ (rectangles color false).statements ↔
      ∃ left ∈ unmatched color before, ∃ top ∈ unmatched color above, body = inColor (some color) ++ [left, top] := by
  simp [rule_mem_rectangles, Roles.ofColor_eq, cell_inj, Roles.label_eq]

private theorem left_rule {body : List Literal} :
    .rule (.cell (Roles.label color "left") .here) body ∈ (rectangles color false).statements ↔
      ∃ left ∈ unmatched color before, ∃ role ∈ [Roles.label color "upleft", Roles.label color "left"],
        body = inColor (some color) ++ [.holds (.cell role above), left] := by
  simp [rule_mem_rectangles, Roles.ofColor_eq, cell_inj, Roles.label_eq]

private theorem top_rule {body : List Literal} :
    .rule (.cell (Roles.label color "up") .here) body ∈ (rectangles color false).statements ↔
      ∃ top ∈ unmatched color above, ∃ role ∈ [Roles.label color "upleft", Roles.label color "up"],
        body = inColor (some color) ++ [.holds (.cell role before), top] := by
  simp [rule_mem_rectangles, Roles.ofColor_eq, cell_inj, Roles.label_eq]

private theorem inner_rule {body : List Literal} :
    .rule (.cell (Roles.label color "remain") .here) body ∈ (rectangles color false).statements ↔
      ∃ pair ∈ (Roles.ofColor color).aroundInner,
        body = [.test (onGrid .here), .holds (.cell pair.1 before), .holds (.cell pair.2 above)] := by
  simp [rule_mem_rectangles, Roles.ofColor_eq, cell_inj, Roles.label_eq]

section Model

variable (model : (rectangles color false).Model (shadingFacts board color) world)
include model

theorem shows_of_rectangles (named : color.name ≠ Relation.grid) : world.Shows board (some color) := by
  refine World.Shows.of_model (.of_board (some color) ?_) model not_defines_grid ?_
  · intro own chosen
    cases chosen
    exact named
  · intro own chosen
    cases chosen
    exact not_defines_name

private theorem role_supported {role : String} (isRole : role ∈ Roles.words) :
    world (.cell (Roles.label color role) row col) ↔ ∃ body,
      .rule (.cell (Roles.label color role) .here) body ∈ (rectangles color false).statements ∧
        ∃ binding, Place.Here binding row col ∧ ∀ literal ∈ body,
          literal.Holds world (Program.ruleScope (.cell (Roles.label color role) .here) body) binding := by
  rw [model.iff_supported]
  refine ⟨fun reason => ?_, fun derived => .inr (.inr ?_)⟩
  · rcases reason with given | stated | derived
    · rcases given with isGrid | isColor
      · exact absurd (Board.gridFacts_relation isGrid) (Roles.label_ne_grid isRole)
      · exact absurd (Board.colorFacts_relation isColor) (Roles.label_ne_name role)
    · obtain ⟨atom, statement, _⟩ := stated
      simp [rectangles, colorRoles] at statement
    · obtain ⟨head, body, statement, binding, denoted, met⟩ := derived
      have isCell : ∃ relation, head = .cell relation .here := by
        rcases rule_mem_rectangles.mp statement with ⟨_, _, _, _, rfl, _⟩ | ⟨_, _, _, _, rfl, _⟩ |
          ⟨_, _, _, _, rfl, _⟩ | ⟨_, _, rfl, _⟩ <;> exact ⟨_, rfl⟩
      obtain ⟨relation, rfl⟩ := isCell
      obtain ⟨rfl, here⟩ := here_denotes_cell.mp denoted
      exact ⟨body, statement, binding, here, met⟩
  · obtain ⟨body, statement, binding, here, met⟩ := derived
    exact ⟨_, body, statement, binding, here_denotes_cell.mpr ⟨rfl, here⟩, met⟩

variable (shows : world.Shows board (some color))
include shows

private theorem corner_iff (row col : Int) : world (.cell (Roles.label color "upleft") row col) ↔
    (board.colored color).Shades row col ∧ ¬ (board.colored color).Shades row (col - 1) ∧
      ¬ (board.colored color).Shades (row - 1) col := by
  rw [role_supported model (by decide)]
  apply Iff.intro
  · intro derived
    obtain ⟨body, statement, binding, here, met⟩ := derived
    obtain ⟨left, inLeft, top, inTop, rfl⟩ := corner_rule.mp statement
    rw [List.forall_mem_append] at met
    refine ⟨(shows.inColor_holds here).mp met.1, ?_, ?_⟩
    · exact not_shaded_of_unmatched shows (before_stands here) inLeft (met.2 left (by simp))
    · exact not_shaded_of_unmatched shows (above_stands here) inTop (met.2 top (by simp))
  · intro holds
    obtain ⟨isMatched, noBefore, noAbove⟩ := holds
    obtain ⟨binding, here⟩ := Place.exists_here row col
    obtain ⟨left, inLeft, leftHolds⟩ := exists_unmatched shows (before_stands here) noBefore
    obtain ⟨top, inTop, topHolds⟩ := exists_unmatched shows (above_stands here) noAbove
    refine ⟨_, corner_rule.mpr ⟨left, inLeft, top, inTop, rfl⟩, binding, here, ?_⟩
    refine List.forall_mem_append.mpr ⟨(shows.inColor_holds here).mpr isMatched, ?_⟩
    exact List.forall_mem_cons.mpr ⟨leftHolds _, List.forall_mem_singleton.mpr (topHolds _)⟩

/-- The first column and the first row grow alike: a role comes from the cell on one side, where the cell
on the other side does not have the color. -/
private theorem edge_iff {role : String} (isRole : role ∈ Roles.words) {toward off : Place}
    {row' col' row'' col'' : Int}
    (rule : ∀ {body}, .rule (.cell (Roles.label color role) .here) body ∈ (rectangles color false).statements ↔
      ∃ literal ∈ unmatched color off, ∃ other ∈ [Roles.label color "upleft", Roles.label color role],
        body = inColor (some color) ++ [.holds (.cell other toward), literal])
    (towardStands : ∀ {binding}, Place.Here binding row col → toward.Stands binding row' col')
    (offStands : ∀ {binding}, Place.Here binding row col → off.Stands binding row'' col'') :
    world (.cell (Roles.label color role) row col) ↔
      (board.colored color).Shades row col ∧ (world (.cell (Roles.label color "upleft") row' col') ∨
        world (.cell (Roles.label color role) row' col')) ∧
        ¬ (board.colored color).Shades row'' col'' := by
  rw [role_supported model isRole]
  apply Iff.intro
  · intro derived
    obtain ⟨body, statement, binding, here, met⟩ := derived
    obtain ⟨literal, listed, other, isOther, rfl⟩ := rule.mp statement
    rw [List.forall_mem_append] at met
    have along := (holds_cell (towardStands here)).mp (met.2 (.holds (.cell other toward)) (by simp))
    refine ⟨(shows.inColor_holds here).mp met.1, ?_, ?_⟩
    · rcases List.mem_pair.mp isOther with rfl | rfl
      · exact .inl along
      · exact .inr along
    · exact not_shaded_of_unmatched shows (offStands here) listed (met.2 literal (by simp))
  · intro holds
    obtain ⟨isMatched, along, unshaded⟩ := holds
    obtain ⟨binding, here⟩ := Place.exists_here row col
    obtain ⟨literal, listed, literalHolds⟩ := exists_unmatched shows (offStands here) unshaded
    obtain ⟨other, isOther, otherHolds⟩ : ∃ other ∈ [Roles.label color "upleft", Roles.label color role],
        world (.cell other row' col') := by simpa using along
    refine ⟨_, rule.mpr ⟨literal, listed, other, isOther, rfl⟩, binding, here, ?_⟩
    refine List.forall_mem_append.mpr ⟨(shows.inColor_holds here).mpr isMatched, ?_⟩
    have towardHolds := (holds_cell (towardStands here)).mpr otherHolds
    exact List.forall_mem_cons.mpr ⟨towardHolds, List.forall_mem_singleton.mpr (literalHolds _)⟩

private theorem inner_iff (row col : Int) : world (.cell (Roles.label color "remain") row col) ↔
    board.Covers row col ∧ (world (.cell (Roles.label color "left") row (col - 1)) ∨
      world (.cell (Roles.label color "remain") row (col - 1))) ∧
      (world (.cell (Roles.label color "up") (row - 1) col) ∨
        world (.cell (Roles.label color "remain") (row - 1) col)) := by
  rw [role_supported model (by decide)]
  apply Iff.intro
  · intro derived
    obtain ⟨body, statement, binding, here, met⟩ := derived
    obtain ⟨⟨first, second⟩, listed, rfl⟩ := inner_rule.mp statement
    have onGrid : board.Covers row col :=
      shows.grid_cell.mp ((holds_cell here.stands).mp (met _ List.mem_cons_self))
    have left := (holds_cell (before_stands here)).mp (met (.holds (.cell first before)) (by simp))
    have top := (holds_cell (above_stands here)).mp (met (.holds (.cell second above)) (by simp))
    obtain ⟨firstRole, secondRole⟩ := Roles.mem_aroundInner.mp listed
    refine ⟨onGrid, ?_, ?_⟩
    · rcases firstRole with rfl | rfl
      · exact .inl left
      · exact .inr left
    · rcases secondRole with rfl | rfl
      · exact .inl top
      · exact .inr top
  · intro holds
    obtain ⟨onGrid, left, top⟩ := holds
    obtain ⟨binding, here⟩ := Place.exists_here row col
    obtain ⟨first, firstRole, firstHolds⟩ : ∃ role, (role = Roles.label color "left" ∨
        role = Roles.label color "remain") ∧ world (.cell role row (col - 1)) := by
      rcases left with left | left
      · exact ⟨_, .inl rfl, left⟩
      · exact ⟨_, .inr rfl, left⟩
    obtain ⟨second, secondRole, secondHolds⟩ : ∃ role, (role = Roles.label color "up" ∨
        role = Roles.label color "remain") ∧ world (.cell role (row - 1) col) := by
      rcases top with top | top
      · exact ⟨_, .inl rfl, top⟩
      · exact ⟨_, .inr rfl, top⟩
    have listed := Roles.mem_aroundInner.mpr ⟨firstRole, secondRole⟩
    refine ⟨_, inner_rule.mpr ⟨(first, second), listed, rfl⟩, binding, here, ?_⟩
    refine List.forall_mem_cons.mpr ⟨(holds_cell here.stands).mpr (shows.grid_cell.mpr onGrid), ?_⟩
    have beforeHolds := (holds_cell (before_stands here)).mpr firstHolds
    have aboveHolds := (holds_cell (above_stands here)).mpr secondHolds
    exact List.forall_mem_cons.mpr ⟨beforeHolds, List.forall_mem_singleton.mpr aboveHolds⟩

theorem roles_of_model : Plane.Roles board.Covers (board.colored color).Shades
    (fun row col => world (.cell (Roles.label color "upleft") row col))
    (fun row col => world (.cell (Roles.label color "left") row col))
    (fun row col => world (.cell (Roles.label color "up") row col))
    (fun row col => world (.cell (Roles.label color "remain") row col)) where
  corner_iff := corner_iff model shows
  left_iff _ _ := edge_iff model shows (by decide) left_rule above_stands before_stands
  top_iff _ _ := edge_iff model shows (by decide) top_rule before_stands above_stands
  inner_iff := inner_iff model shows

end Model

theorem constraint_mem_rectangles {body : List Literal} :
    .constraint body ∈ (rectangles color false).statements ↔
      body = inColor (some color) ++ (Roles.ofColor color).none .here ∨
      body = [.test (onGrid .here), .holds (.cell (Roles.label color "remain") .here),
        .test (color.off .here)] := by
  simp [rectangles, colorRoles, inColor, Option.elim_some, Roles.ofColor_eq]

private theorem none_holds {binding : Binding} {outer : List String} (here : Place.Here binding row col) :
    (∀ literal ∈ (Roles.ofColor color).none .here, literal.Holds world outer binding) ↔
      ¬ (world (.cell (Roles.label color "upleft") row col) ∨
        world (.cell (Roles.label color "left") row col) ∨
        world (.cell (Roles.label color "up") row col) ∨
        world (.cell (Roles.label color "remain") row col)) := by
  have fails {relation : String} : (Literal.fails (.cell relation .here)).Holds world outer binding ↔
      ¬ world (.cell relation row col) := fails_cell here.stands
  simp only [Roles.none, Roles.ofColor_eq, List.forall_mem_cons, fails]
  tauto

/-- A constraint fails if some cell of the color has no role, or an inner cell lacks the color. -/
theorem violated_iff (model : (rectangles color false).Model (shadingFacts board color) world)
    (shows : world.Shows board (some color)) :
    (rectangles color false).Violated world ↔ ¬ Plane.Covered (board.colored color).Shades
      (fun row col => world (.cell (Roles.label color "upleft") row col))
      (fun row col => world (.cell (Roles.label color "left") row col))
      (fun row col => world (.cell (Roles.label color "up") row col))
      (fun row col => world (.cell (Roles.label color "remain") row col)) := by
  apply Iff.intro
  · intro violated covered
    obtain ⟨body, statement, binding, met⟩ := violated
    rcases constraint_mem_rectangles.mp statement with rfl | rfl
    · rw [List.forall_mem_append] at met
      obtain ⟨row, col, _, here⟩ := shows.onGrid_here.mp (met.1 _ List.mem_cons_self)
      have shades := (shows.inColor_holds here).mp met.1
      exact (none_holds here).mp met.2 (covered.1 row col shades)
    · obtain ⟨row, col, onGrid, here⟩ := shows.onGrid_here.mp (met _ List.mem_cons_self)
      have inner := (holds_cell here.stands).mp (met (.holds (.cell (Roles.label color "remain") .here)) (by simp))
      have off := (holds_off color here.stands).mp (met (.test (color.off .here)) (by simp))
      exact off (shows.shades_colored.mp (covered.2 row col inner)).2
  · intro uncovered
    by_contra satisfied
    refine uncovered ⟨fun row col shades => ?_, fun row col inner => ?_⟩
    · by_contra without
      obtain ⟨binding, here⟩ := Place.exists_here row col
      refine satisfied ⟨_, constraint_mem_rectangles.mpr (.inl rfl), binding, ?_⟩
      rw [List.forall_mem_append]
      exact ⟨(shows.inColor_holds here).mpr shades, (none_holds here).mpr without⟩
    · by_contra unshaded
      obtain ⟨binding, here⟩ := Place.exists_here row col
      have covers := ((inner_iff model shows row col).mp inner).1
      have offHolds : (color.off .here).Holds world binding := by
        apply (holds_off color here.stands).mpr
        exact fun has => unshaded (shows.shades_colored.mpr ⟨covers, has⟩)
      refine satisfied ⟨_, constraint_mem_rectangles.mpr (.inr rfl), binding, ?_⟩
      refine List.forall_mem_cons.mpr ⟨shows.onGrid_here.mpr ⟨row, col, covers, here⟩, ?_⟩
      exact List.forall_mem_cons.mpr ⟨(holds_cell here.stands).mpr inner,
        List.forall_mem_singleton.mpr offHolds⟩

private theorem unmatched_relations {place : Place} {literal : Literal} (listed : literal ∈ unmatched color place) :
    literal.relations ⊆ [Relation.grid, color.name] := by
  cases color with
  | positive name =>
    rw [List.mem_singleton.mp listed]
    exact List.subset_cons_self _ _
  | negated name =>
    rcases List.mem_pair.mp listed with rfl | rfl
    · exact List.cons_subset_cons _ (List.nil_subset _)
    · exact List.subset_cons_self _ _

private theorem matched_relations {literal : Literal} (listed : literal ∈ inColor (some color)) :
    literal.relations ⊆ [Relation.grid, color.name] := by
  rcases List.mem_pair.mp listed with rfl | rfl
  · exact List.cons_subset_cons _ (List.nil_subset _)
  · cases color <;> exact List.subset_cons_self _ _

theorem existsUnique_rectangles (color : Color) (given : World) :
    ∃! world, (rectangles color false).Model given world := by
  refine Program.existsUnique_model_of_lower [Relation.grid, color.name] ?_ ?_ _
  · intro relation member
    rcases List.mem_pair.mp member with rfl | rfl
    · exact not_defines_grid
    · exact not_defines_name
  · intro head body statement literal member negative
    rcases rule_mem_rectangles.mp statement with ⟨left, inLeft, top, inTop, _, rfl⟩ |
      ⟨left, inLeft, _, _, _, rfl⟩ | ⟨top, inTop, _, _, _, rfl⟩ | ⟨_, _, _, rfl⟩
    · rcases List.mem_append.mp member with isMatched | either
      · exact matched_relations isMatched
      · rcases List.mem_pair.mp either with rfl | rfl
        · exact unmatched_relations inLeft
        · exact unmatched_relations inTop
    · rcases List.mem_append.mp member with isMatched | either
      · exact matched_relations isMatched
      · rcases List.mem_pair.mp either with rfl | rfl
        · exact absurd rfl (negative _)
        · exact unmatched_relations inLeft
    · rcases List.mem_append.mp member with isMatched | either
      · exact matched_relations isMatched
      · rcases List.mem_pair.mp either with rfl | rfl
        · exact absurd rfl (negative _)
        · exact unmatched_relations inTop
    · simp only [List.mem_cons, List.not_mem_nil, or_false] at member
      rcases member with rfl | rfl | rfl <;> exact absurd rfl (negative _)

theorem existsUnique_model (board : Board) (color : Color) :
    ∃! world, (rectangles color false).Model (shadingFacts board color) world :=
  existsUnique_rectangles color _

/-- The rules about rectangles have one model over a board, and it breaks a constraint exactly if some
group of cells of the color is no filled rectangle. -/
theorem rectangles_agree (board : Board) (color : Color) (small : board.rows * board.cols ≤ 2147483647)
    (named : color.name ≠ Relation.grid) :
    (∃! world, (rectangles color false).Model (shadingFacts board color) world) ∧
      ∃ answer, (board.colored color).allRectangles false = .ok answer ∧
        ∀ world, (rectangles color false).Model (shadingFacts board color) world →
          ((rectangles color false).Violated world ↔ answer = false) := by
  refine ⟨existsUnique_model board color, ?_⟩
  · have small' : (board.colored color).rows * (board.colored color).cols ≤ 2147483647 := by
      cases color <;> exact small
    obtain ⟨answer, answered, exact⟩ := Board.allRectangles_ok small'
    refine ⟨answer, answered, fun world model => ?_⟩
    have shows := shows_of_rectangles model named
    have roles := roles_of_model model shows
    have counted : ∀ row col, board.Covers row col → 0 ≤ row ∧ 0 ≤ col := by
      intro row col covers
      obtain ⟨cell, inside, rfl, rfl⟩ := covers
      have bounds := Board.contains_iff.mp inside
      exact ⟨bounds.1.1, bounds.2.1⟩
    have covered_iff := roles.covered_iff (fun _ _ _ _ => Board.covers_crossing) counted
      fun row col shades => (shows.shades_colored.mp shades).1
    rw [violated_iff model shows, covered_iff, ← exact, Bool.not_eq_true]

def bentBoard : Board := .ofShading 2 2 (by decide) fun row col => row + col < 2

theorem rectangles_agree_bentBoard :
    bentBoard.allRectangles false = .ok false ∧ ∃ world,
      (rectangles (.positive "black") false).Model (shadingFacts bentBoard (.positive "black")) world ∧
        (rectangles (.positive "black") false).Violated world := by
  obtain ⟨⟨world, model, _⟩, answer, answered, exact⟩ :=
    rectangles_agree bentBoard (.positive "black") (by decide) (by decide)
  have bent : bentBoard.allRectangles false = .ok false := by decide +kernel
  have same : answer = false := Except.ok.inj (answered.symm.trans bent)
  exact ⟨bent, world, model, (exact world model).mpr same⟩

end GridPuzzle.Template
