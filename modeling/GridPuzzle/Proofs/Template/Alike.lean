import GridPuzzle.Template.SourceBits
import GridPuzzle.Proofs.Board.Facts
import GridPuzzle.Proofs.Rules.Transfer

/-!
Two colors for the same cells. Where a world shows by one color the cells that another world shows by another, and
the two agree on what templates read besides, a test of the one color that stands behind a look at the grid goes
over to the other. So rules can be followed one by one.
-/
namespace GridPuzzle

/-- All neighbors that the world knows of are cells of the board. -/
def World.JoinsWithin (world : World) (board : Board) : Prop :=
  ∀ (kind : Adjacency) (fact : Fact), fact.relation = kind.relation → world fact → ∃ a b : Cell,
    (board.contains a = true ∧ board.contains b = true) ∧
      fact = .pair kind.relation a.row.val a.col.val b.row.val b.col.val

namespace Template

/-- The relations that templates read, apart from colors and from what they label themselves. -/
def inputs : List String :=
  [Relation.grid, Relation.wallLeft, Relation.wallTop, presentBit, absentBit] ++
    Adjacency.all.map Adjacency.relation

theorem relation_mem_inputs (kind : Adjacency) : kind.relation ∈ inputs := by
  cases kind <;> decide

structure Alike (board board' : Board) (color color' : Color) (one two : World) : Prop where
  first : one.Shows board (some color)
  second : two.Shows board' (some color')
  sheet : board.colored color = board'.colored color'
  agree : ∀ relation ∈ inputs, one.AgreeOn two relation
  within : one.JoinsWithin board

namespace Alike

variable {board board' : Board} {color color' : Color} {one two : World} {binding : Binding}
  {outer outer' : List String} {row col : Int} (alike : Alike board board' color color' one two)
include alike

theorem contains (cell : Cell) : board.contains cell = board'.contains cell := by
  rw [← Board.contains_colored color, alike.sheet, Board.contains_colored]

theorem covers_iff : board.Covers row col ↔ board'.Covers row col := by
  rw [← Board.covers_colored color, alike.sheet, Board.covers_colored]

theorem symm : Alike board' board color' color two one where
  first := alike.second
  second := alike.first
  sheet := alike.sheet.symm
  agree relation given fact same := (alike.agree relation given fact same).symm
  within kind fact same holds := by
    have given : fact.relation ∈ inputs := same ▸ relation_mem_inputs kind
    obtain ⟨a, b, inside, pair⟩ := alike.within kind fact same ((alike.agree _ given fact rfl).mpr holds)
    exact ⟨a, b, by rwa [← alike.contains a, ← alike.contains b], pair⟩

theorem input {relation : String} (given : relation ∈ inputs) {terms : List Term}
    (holds : (Test.holds ⟨relation, terms⟩).Holds one binding) : (Test.holds ⟨relation, terms⟩).Holds two binding :=
  Test.holds_of_carries (fun _ => (alike.agree relation given _ rfl).mp) holds

theorem onGrid {place : Place} (holds : (onGrid place).Holds one binding) :
    (GridPuzzle.onGrid place).Holds two binding :=
  alike.input (by decide) holds

theorem joins {kind : Adjacency} {a b : Place} (holds : (Test.holds (kind.joins a b)).Holds one binding) :
    (Test.holds (kind.joins a b)).Holds two binding :=
  alike.input (relation_mem_inputs kind) holds

theorem matches_iff (covers : board.Covers row col) : color.Matches one row col ↔ color'.Matches two row col := by
  have covers' := alike.covers_iff.mp covers
  have shades : (board.colored color).Shades row col ↔ _ := alike.first.shades_colored
  rw [alike.sheet, alike.second.shades_colored, and_iff_right covers, and_iff_right covers'] at shades
  exact shades.symm

theorem on {place : Place} (stands : place.Stands binding row col) (covers : board.Covers row col)
    (holds : (color.on place).Holds one binding) : (color'.on place).Holds two binding :=
  (holds_on color' stands).mpr ((alike.matches_iff covers).mp ((holds_on color stands).mp holds))

theorem off {place : Place} (stands : place.Stands binding row col) (covers : board.Covers row col)
    (holds : (color.off place).Holds one binding) : (color'.off place).Holds two binding :=
  (holds_off color' stands).mpr fun matched =>
    (holds_off color stands).mp holds ((alike.matches_iff covers).mpr matched)

/-- A body that starts with a look at its own cell is followed if the rest of it is. -/
theorem inColor_append {rest rest' : List Literal}
    (met : ∀ literal ∈ inColor (some color) ++ rest, literal.Holds one outer binding)
    (others : ∀ literal ∈ rest', literal.Holds two outer' binding) :
    ∀ literal ∈ inColor (some color') ++ rest', literal.Holds two outer' binding := by
  rw [List.forall_mem_append] at met ⊢
  obtain ⟨row, col, _, here⟩ := alike.first.onGrid_here.mp (met.1 _ List.mem_cons_self)
  have shades := (alike.first.inColor_holds here).mp met.1
  rw [Board.tinted, alike.sheet] at shades
  exact ⟨(alike.second.inColor_holds here).mpr shades, others⟩

/-- A cell of the color that no label covers. -/
theorem uncovered {label label' : String} {args : List Term}
    (same : ∀ values, two ⟨label', values⟩ → one ⟨label, values⟩)
    (met : ∀ literal ∈ inColor (some color) ++ [.fails ⟨label, args⟩], literal.Holds one outer binding) :
    ∀ literal ∈ inColor (some color') ++ [.fails ⟨label', args⟩], literal.Holds two outer' binding := by
  refine alike.inColor_append met (List.forall_mem_singleton.mpr ?_)
  exact Test.fails_of_carries same (met _ (List.mem_append_right _ (List.mem_singleton_self _)))

/-- The rule by which a label spreads to neighbors of the color. -/
theorem spread {atom atom' : Atom} {kind : Adjacency}
    (met : ∀ literal ∈ .holds atom :: inColor (some color) ++ [.holds (kind.joins .here .other)],
      literal.Holds one outer binding)
    (carried : (Test.holds atom').Holds two binding) :
    ∀ literal ∈ .holds atom' :: inColor (some color') ++ [.holds (kind.joins .here .other)],
      literal.Holds two outer' binding := by
  rw [List.cons_append, List.forall_mem_cons] at met ⊢
  refine ⟨carried, alike.inColor_append met.2 (List.forall_mem_singleton.mpr ?_)⟩
  exact alike.joins (met.2 _ (List.mem_append_right _ (List.mem_singleton_self _)))

end Alike

/-- Models of a program for either color, over facts that say nothing of the labels. -/
structure Parallel (board board' : Board) (labels : List (Color → String)) (color color' : Color)
    (program program' : Program) (one two : World) : Prop where
  alike : Alike board board' color color' one two
  first : ∃ given, program.Model given one ∧ ∀ fact, given fact → ∀ label ∈ labels, label color ≠ fact.relation
  second : ∃ given, program'.Model given two ∧ ∀ fact, given fact → ∀ label ∈ labels, label color' ≠ fact.relation

namespace Parallel

variable {board board' : Board} {labels others : List (Color → String)} {color color' : Color}
  {program program' : Program} {one two : World}

theorem symm (parallel : Parallel board board' labels color color' program program' one two) :
    Parallel board' board labels color' color program' program two one :=
  ⟨parallel.alike.symm, parallel.second, parallel.first⟩

theorem of_subset (parallel : Parallel board board' labels color color' program program' one two)
    (subset : ∀ label ∈ others, label ∈ labels) :
    Parallel board board' others color color' program program' one two := by
  obtain ⟨alike, ⟨given, model, fresh⟩, given', model', fresh'⟩ := parallel
  exact ⟨alike, ⟨given, model, fun fact isGiven label member => fresh fact isGiven label (subset label member)⟩,
    given', model', fun fact isGiven label member => fresh' fact isGiven label (subset label member)⟩

theorem of_append {first second first' second' : Program}
    (parallel : Parallel board board' labels color color' (first ++ second) (first' ++ second') one two)
    (only : ∀ statement ∈ second.statements, ∃ body, statement = .constraint body)
    (only' : ∀ statement ∈ second'.statements, ∃ body, statement = .constraint body) :
    Parallel board board' labels color color' first first' one two := by
  obtain ⟨alike, ⟨given, model, fresh⟩, given', model', fresh'⟩ := parallel
  exact ⟨alike, ⟨given, (Program.model_append_constraints only).mp model, fresh⟩,
    given', (Program.model_append_constraints only').mp model', fresh'⟩

/-- Every labelled fact is found under the other color if the facts and rules for labels are. -/
theorem carries (parallel : Parallel board board' labels color color' program program' one two)
    (facts : ∀ label ∈ labels, ∀ args, .fact ⟨label color, args⟩ ∈ program.statements →
      .fact ⟨label color', args⟩ ∈ program'.statements)
    (rules : ∀ label ∈ labels, ∀ args body, .rule ⟨label color, args⟩ body ∈ program.statements → ∀ binding,
      (∀ literal ∈ body, literal.Holds one (Program.ruleScope ⟨label color, args⟩ body) binding) →
      (∀ label ∈ labels, ∀ args, .holds ⟨label color, args⟩ ∈ body →
        (Test.holds ⟨label color', args⟩).Holds two binding) →
      ∃ body', .rule ⟨label color', args⟩ body' ∈ program'.statements ∧
        ∀ outer, ∀ literal ∈ body', literal.Holds two outer binding) :
    ∀ label ∈ labels, ∀ values, one ⟨label color, values⟩ → two ⟨label color', values⟩ := by
  obtain ⟨_, ⟨given, model, fresh⟩, given', model', _⟩ := parallel
  have carried : World.Carries (fun relation relation' => ∃ label ∈ labels, label color = relation ∧
      label color' = relation') one two := by
    refine Program.Model.carries model model' ?_ ?_ ?_
    · rintro fact isGiven relation ⟨label, member, same, _⟩
      exact fresh fact isGiven label member same
    · rintro ⟨relation, args⟩ statement _ ⟨label, member, rfl, rfl⟩
      exact facts label member args statement
    · rintro ⟨relation, args⟩ body statement _ ⟨label, member, rfl, rfl⟩ binding met before
      obtain ⟨body', statement', met'⟩ := rules label member args body statement binding met
        fun label member args listed => before _ listed _ ⟨label, member, rfl, rfl⟩
      exact ⟨body', statement', met' _⟩
  exact fun label member => carried _ _ ⟨label, member, rfl, rfl⟩

end Parallel

end Template

end GridPuzzle
