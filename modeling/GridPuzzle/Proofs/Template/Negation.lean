import GridPuzzle.Template.Shading
import GridPuzzle.Proofs.Template.Pattern

/-!
Negated colors and complements. A template for the cells that lack a color says the same as one for a relation of its
own that is derived for just these cells.
-/
namespace GridPuzzle.Template

/-- The cells of the grid that do not have one color are given the other. -/
def derivation (name inverse : String) : Program :=
  ⟨[.rule (.cell inverse .here) (inColor (some (.negated name)))]⟩

theorem complement_ok (name inverse : String) :
    complement (.positive name) (.positive inverse) = .ok (derivation name inverse) := rfl

/-- The cells of a board and of a color, and any other facts. -/
def puzzleFacts (board : Board) (name : String) (others : World) : World :=
  (board.gridFacts.join (board.colorFacts name)).join others

namespace Pattern

/-- The color and its inverse are none of the relations that are read besides and none that are labelled, and the
other facts are of none of these, and about neighbors on the board. -/
structure Fresh (pattern : Pattern) (board : Board) (name inverse : String) (others : World) : Prop where
  named : name ∉ inputs
  derived : inverse ∉ inputs
  apart : inverse ≠ name
  unlabelled : ∀ label ∈ pattern.labels, label (.positive inverse) ≠ name
  separate : ∀ fact, others fact → fact.relation ∉ [Relation.grid, name, inverse] ∧
    ∀ label ∈ pattern.labels, ∀ color ∈ [Color.negated name, .positive inverse], label color ≠ fact.relation
  within : others.JoinsWithin board

variable {pattern : Pattern} {board : Board} {name inverse : String} {others one two : World}
  {program program' : Program}

namespace Fresh

variable (fresh : pattern.Fresh board name inverse others)
include fresh

omit fresh in
theorem given_cases {fact : Fact} (given : puzzleFacts board name others fact) :
    fact.relation = Relation.grid ∨ fact.relation = name ∨ others fact :=
  or_assoc.mp (given.imp_left (.imp Board.gridFacts_relation Board.colorFacts_relation))

theorem shows : World.Shows (puzzleFacts board name others) board (some (.negated name)) := by
  refine (World.Shows.of_board (some (.negated name)) ?_).join fun fact other => ⟨?_, ?_⟩
  · intro own chosen
    cases chosen
    exact fun same => fresh.named ((show name = Relation.grid from same) ▸ by decide)
  · exact fun same => (fresh.separate fact other).1 (same ▸ List.mem_cons_self)
  · intro own chosen
    cases chosen
    exact fun same => (fresh.separate fact other).1 (same ▸ List.mem_cons_of_mem _ List.mem_cons_self)

/-- The rule gives the inverse to the cells that the board does not shade. -/
theorem fires_iff {fact : Fact} : (derivation name inverse).Fires (puzzleFacts board name others) fact ↔
    board.complement.colorFacts inverse fact := by
  constructor
  · rintro (⟨_, statement, _⟩ | ⟨head, body, statement, binding, denoted, met⟩)
    · cases List.mem_singleton.mp statement
    · cases List.mem_singleton.mp statement
      obtain ⟨row, col, _, here⟩ := fresh.shows.onGrid_here.mp (met _ List.mem_cons_self)
      obtain ⟨cell, shaded, rfl, rfl⟩ := (fresh.shows.inColor_holds here).mp met
      exact ⟨cell, shaded, (Atom.denotes_iff here.stands.args).mp denoted⟩
  · rintro ⟨cell, shaded, rfl⟩
    obtain ⟨binding, here⟩ := Place.exists_here cell.row.val cell.col.val
    refine .inr ⟨_, _, List.mem_singleton_self _, binding, here_denotes_cell.mpr ⟨rfl, here⟩, ?_⟩
    exact (fresh.shows.inColor_holds here).mpr (Board.shades_cell.mpr shaded)

theorem outcome_iff {fact : Fact} : (derivation name inverse).outcome (puzzleFacts board name others) fact ↔
    puzzleFacts board name others fact ∨ board.complement.colorFacts inverse fact :=
  or_congr_right fresh.fires_iff

theorem not_given_inverse {fact : Fact} (same : fact.relation = inverse) : ¬ puzzleFacts board name others fact := by
  intro given
  rcases given_cases given with isGrid | isColor | other
  · exact fresh.derived (same.symm.trans isGrid ▸ by decide)
  · exact fresh.apart (same.symm.trans isColor)
  · exact (fresh.separate fact other).1 (by simp [same])

theorem outcome_shows : World.Shows ((derivation name inverse).outcome (puzzleFacts board name others))
    board.complement (some (.positive inverse)) := by
  constructor
  · intro fact same
    rw [fresh.outcome_iff, fresh.shows.grid fact same]
    refine or_iff_left fun isInverse => fresh.derived ?_
    exact (Board.colorFacts_relation isInverse).symm.trans same ▸ by decide
  · intro own chosen fact same
    cases chosen
    rw [fresh.outcome_iff, or_iff_right (fresh.not_given_inverse same)]
    exact Iff.rfl

theorem outcome_agree : ∀ relation ∈ inputs,
    ((derivation name inverse).outcome (puzzleFacts board name others)).AgreeOn (puzzleFacts board name others)
      relation := by
  intro relation given fact same
  rw [fresh.outcome_iff]
  refine or_iff_left fun isInverse => fresh.derived ?_
  rwa [← Board.colorFacts_relation isInverse, same]

theorem given_within : World.JoinsWithin (puzzleFacts board name others) board := by
  intro kind fact same given
  rcases given_cases given with isGrid | isColor | other
  · exact absurd (isGrid.symm.trans same) (by cases kind <;> decide)
  · exact absurd (isColor.symm.trans same ▸ relation_mem_inputs kind) fresh.named
  · exact fresh.within kind fact same other

theorem given_unlabelled (fact : Fact) (given : puzzleFacts board name others fact) :
    ∀ label ∈ pattern.labels, ∀ color ∈ [Color.negated name, .positive inverse], label color ≠ fact.relation := by
  intro label member color isColor
  rcases given_cases given with same | same | other
  · exact same ▸ pattern.label_ne_input color label member Relation.grid (by decide)
  · rcases List.mem_pair.mp isColor with rfl | rfl
    · exact same ▸ pattern.label_ne_name (.negated name) label member
    · exact same ▸ fresh.unlabelled label member
  · exact (fresh.separate fact other).2 label member color isColor

end Fresh

theorem suits_complement (suits : pattern.Suits board) : pattern.Suits board.complement := by
  cases pattern <;> exact suits

section Models

variable (fresh : pattern.Fresh board name inverse others) (suits : pattern.Suits board)
  (built' : pattern.build (.positive inverse) = .ok program')
include fresh suits built'

/-- The rule of the inverse looks at given facts only. -/
theorem settled_derivation : (derivation name inverse).Settled program' := by
  have undefined {relation : String} (looked : relation = Relation.grid ∨ relation = name) :
      ¬ program'.Defines relation ∧ ¬ (derivation name inverse).Defines relation := by
    constructor
    · rcases looked with rfl | rfl
      · exact undefined_input suits built' (by decide)
      · intro defines
        obtain ⟨label, member, same⟩ := label_of_defines suits built' defines
        exact fresh.unlabelled label member same
    · rintro (⟨_, statement, _⟩ | ⟨head, body, statement, same⟩)
      · cases List.mem_singleton.mp statement
      · cases List.mem_singleton.mp statement
        rcases looked with rfl | rfl
        · exact fresh.derived ((show inverse = Relation.grid from same) ▸ by decide)
        · exact fresh.apart same
  intro head body statement literal member relation looked
  cases List.mem_singleton.mp statement
  rcases List.mem_pair.mp member with rfl | rfl
  · exact undefined (.inl (List.mem_singleton.mp looked))
  · exact undefined (.inr (List.mem_singleton.mp looked))

variable (built : pattern.build (.negated name) = .ok program)
  (model : program.Model (puzzleFacts board name others) one)
  (model' : (program' ++ derivation name inverse).Model (puzzleFacts board name others) two)
include built model model'

theorem parallel_of_models :
    Parallel board board.complement pattern.labels (.negated name) (.positive inverse) program program' one two := by
  have model' := (Program.model_append_iff (settled_derivation fresh suits built')).mp model'
  have undefined {relation : String} (given : relation ∈ inputs) : ¬ program.Defines relation :=
    undefined_input suits built given
  have undefined' {relation : String} (given : relation ∈ inputs) : ¬ program'.Defines relation :=
    undefined_input suits built' given
  refine ⟨⟨?_, ?_, rfl, ?_, ?_⟩, ⟨_, model, ?_⟩, _, model', ?_⟩
  · refine fresh.shows.of_model model (undefined (by decide)) fun own chosen => ?_
    cases chosen
    exact undefined_name suits built
  · refine fresh.outcome_shows.of_model model' (undefined' (by decide)) fun own chosen => ?_
    cases chosen
    exact undefined_name suits built'
  · intro relation given fact same
    rw [model.iff_given (same ▸ undefined given), model'.iff_given (same ▸ undefined' given)]
    exact (fresh.outcome_agree relation given fact same).symm
  · intro kind fact same holds
    have undefined := undefined (relation_mem_inputs kind)
    rw [model.iff_given (same ▸ undefined)] at holds
    exact fresh.given_within kind fact same holds
  · exact fun fact given label member => fresh.given_unlabelled fact given label member _ List.mem_cons_self
  · intro fact given label member
    rcases fresh.outcome_iff.mp given with given | isInverse
    · exact fresh.given_unlabelled fact given label member _ (List.mem_cons_of_mem _ (List.mem_singleton_self _))
    · rw [Board.colorFacts_relation isInverse]
      exact pattern.label_ne_name (.positive inverse) label member

end Models

/-- A pattern is built for the cells without a color exactly if it is for an inverse, and then each of the two has
one model, the latter with the rule that derives the inverse. All that they define are the labels. These say the
same in both models, and the constraints of the one are broken exactly if those of the other are. -/
theorem negation_agree (pattern : Pattern) (board : Board) (name inverse : String) (others : World)
    (suits : pattern.Suits board) (fresh : pattern.Fresh board name inverse others) :
    ∃ inverting, complement (.positive name) (.positive inverse) = .ok inverting ∧
      Outcome.RefusedAlike (pattern.build (.negated name)) (pattern.build (.positive inverse)) ∧
      ∀ program program', pattern.build (.negated name) = .ok program →
        pattern.build (.positive inverse) = .ok program' →
        (∀ relation, program.Defines relation → ∃ label ∈ pattern.labels, label (.negated name) = relation) ∧
        (∀ relation, program'.Defines relation → ∃ label ∈ pattern.labels, label (.positive inverse) = relation) ∧
        (∃! world, program.Model (puzzleFacts board name others) world) ∧
        (∃! world, (program' ++ inverting).Model (puzzleFacts board name others) world) ∧
        ∀ one two, program.Model (puzzleFacts board name others) one →
          (program' ++ inverting).Model (puzzleFacts board name others) two →
          (∀ label ∈ pattern.labels, ∀ values,
            one ⟨label (.negated name), values⟩ ↔ two ⟨label (.positive inverse), values⟩) ∧
          (program.Violated one ↔ (program' ++ inverting).Violated two) := by
  have named : (Color.negated name).name ∉ inputs := fresh.named
  have derived : (Color.positive inverse).name ∉ inputs := fresh.derived
  refine ⟨_, complement_ok name inverse, build_refusedAlike pattern _ _, fun program program' built built' => ?_⟩
  refine ⟨fun relation => label_of_defines suits built, fun relation => label_of_defines suits built',
    existsUnique_model suits named built _, ?_, fun one two model model' => ?_⟩
  · simp only [Program.model_append_iff (settled_derivation fresh suits built')]
    exact existsUnique_model suits derived built' _
  · have unbroken : ¬ (derivation name inverse).Violated two := by
      rintro ⟨body, statement, _⟩
      cases List.mem_singleton.mp statement
    rw [Program.violated_append, or_iff_left unbroken]
    exact agree suits built built' (suits_complement suits)
      (parallel_of_models fresh suits built' built model model')

/-- A source among white cells that must not be reached, not even from itself. -/
def strayClue : Clue := ⟨.of 0 0, [], [.of 0 0]⟩

theorem negation_agree_stray : ∃ one two,
    (reachFromAll [strayClue] (some (.negated "black")) .side).Model
      (puzzleFacts marginBoard "black" (marginBoard.adjacencyFacts .side false)) one ∧
    (reachFromAll [strayClue] (some (.positive "white")) .side ++ derivation "black" "white").Model
      (puzzleFacts marginBoard "black" (marginBoard.adjacencyFacts .side false)) two ∧
    two (.pair (sourceLabel (some (.positive "white")) .side) 0 0 0 0) ∧
    (reachFromAll [strayClue] (some (.positive "white")) .side ++ derivation "black" "white").Violated two := by
  have fresh : (sources [strayClue] .side).Fresh marginBoard "black" "white"
      (marginBoard.adjacencyFacts .side false) := by
    refine ⟨by decide, by decide, by decide, by decide, fun fact joins => ?_, fun kind fact same joins => ?_⟩
    · rw [Board.adjacencyFacts_relation joins]
      exact ⟨by decide, fun label member color _ => label_ne_input _ color label member _ (relation_mem_inputs .side)⟩
    · obtain ⟨a, b, adjacent | ⟨self, _⟩, rfl⟩ := joins
      · obtain rfl := Piece.relation_injective same
        exact ⟨a, b, ((Board.adjacent_iff Adjacency.fixed_side).mp adjacent).1, rfl⟩
      · cases self
  obtain ⟨inverting, inverted, _, each⟩ := negation_agree (sources [strayClue] .side) marginBoard "black" "white" _
    trivial fresh
  cases (complement_ok "black" "white").symm.trans inverted
  obtain ⟨_, _, ⟨one, model, _⟩, ⟨two, model', _⟩, agree⟩ := each _ _ rfl rfl
  obtain ⟨same, violated⟩ := agree one two model model'
  have stands (binding : Binding) : (Place.ofCell (.of 0 0)).Stands binding 0 0 := Place.ofCell_stands _
  have reached : one (.pair (sourceLabel (some (.negated "black")) .side) 0 0 0 0) :=
    (model.iff_supported _).mpr (.inr (.inl ⟨_, fact_mem_reachFromAll.mpr ⟨strayClue, List.mem_singleton_self _, rfl⟩,
      fun _ => .inf, (pair_denotes (stands _) (stands _)).mpr rfl⟩))
  refine ⟨one, two, model, model', (same _ (List.mem_singleton_self _) _).mp reached, violated.mp ?_⟩
  refine ⟨_, constraint_mem_reachFromAll.mpr ⟨strayClue, List.mem_singleton_self _,
    .inr (.inl ⟨.of 0 0, List.mem_singleton_self _, rfl⟩)⟩, fun _ => .inf, List.forall_mem_singleton.mpr ?_⟩
  exact (holds_pair (stands _) (stands _)).mpr reached

end Pattern

end GridPuzzle.Template
