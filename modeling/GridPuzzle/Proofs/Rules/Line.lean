import GridPuzzle.Proofs.Rules.Ground

/-!
Lines of cells. An aggregate whose one variable of its own runs through the numbers of the cells on a line ranges
over those numbers whose cells have the facts that its conditions ask for.
-/
namespace GridPuzzle

/-- The binding gives numbers to the outer variables, so that a place runs along a line of cells as its one
other variable runs through the numbers. -/
structure Runs (binding : Binding) (outer : List String) (candidate : String) (start : Term)
    (place : Term → Place) (first : Int) (row col : Int → Int) : Prop where
  free : candidate ∉ outer
  start : ∀ inner : Binding, (∀ name ∈ outer, inner name = binding name) → start.Stands inner (.num first)
  stands : ∀ inner : Binding, (∀ name ∈ outer, inner name = binding name) → ∀ offset number,
    (Term.var candidate offset).Stands inner (.num number) →
      (place (.var candidate offset)).Stands inner (row number) (col number)
  number : ∀ inner : Binding, ∀ relation r c,
    (Atom.cell relation (place (.var candidate 0))).Denotes inner (.cell relation r c) →
      ∃ number, inner candidate = .num number

namespace Runs

variable {world : World} {binding : Binding} {outer : List String} {candidate relation : String}
  {start fixed : Term} {place : Term → Place} {first r c : Int} {row col : Int → Int}

section Lines

variable (free : candidate ∉ outer)
  (starts : ∀ inner : Binding, (∀ name ∈ outer, inner name = binding name) → start.Stands inner (.num first))
include free starts

theorem of_row (rows : ∀ inner : Binding, (∀ name ∈ outer, inner name = binding name) →
    fixed.Stands inner (.num r)) : Runs binding outer candidate start (⟨fixed, ·⟩) first (fun _ => r) id where
  free := free
  start := starts
  stands inner agree _ _ stands := ⟨rows inner agree, stands⟩
  number _ _ _ c denoted := ⟨c, denoted.2.2.1.symm⟩

theorem of_col (cols : ∀ inner : Binding, (∀ name ∈ outer, inner name = binding name) →
    fixed.Stands inner (.num c)) : Runs binding outer candidate start (⟨·, fixed⟩) first id fun _ => c where
  free := free
  start := starts
  stands inner agree _ _ stands := ⟨stands, cols inner agree⟩
  number _ _ r _ denoted := ⟨r, denoted.2.1.symm⟩

end Lines

/-- The place that a rule is about stays where it is as further variables vary. -/
theorem here_stands (here : Place.Here binding r c) (known : "R" ∈ outer ∧ "C" ∈ outer) (inner : Binding)
    (agree : ∀ name ∈ outer, inner name = binding name) : Place.here.Stands inner r c :=
  Place.Here.stands ⟨(agree "R" known.1).trans here.1, (agree "C" known.2).trans here.2⟩

theorem down (here : Place.Here binding r c) (known : "R" ∈ outer ∧ "C" ∈ outer) (free : candidate ∉ outer) :
    Runs binding outer candidate Place.here.row (⟨·, Place.here.col⟩) r id fun _ => c :=
  of_col free (fun inner agree => (here_stands here known inner agree).1)
    fun inner agree => (here_stands here known inner agree).2

theorem across (here : Place.Here binding r c) (known : "R" ∈ outer ∧ "C" ∈ outer) (free : candidate ∉ outer) :
    Runs binding outer candidate Place.here.col (⟨Place.here.row, ·⟩) c (fun _ => r) id :=
  of_row free (fun inner agree => (here_stands here known inner agree).2)
    fun inner agree => (here_stands here known inner agree).1

variable (runs : Runs binding outer candidate start place first row col)
include runs

theorem exists_inner (number : Int) : ∃ inner : Binding,
    (∀ name ∈ outer, inner name = binding name) ∧ inner candidate = .num number := by
  refine ⟨fun name => if name = candidate then .num number else binding name, fun name known => ?_, if_pos rfl⟩
  refine if_neg fun same => ?_
  subst same
  exact runs.free known

/-- An element that asks for facts along the line, and more of their numbers, yields these numbers. -/
theorem yields (cells : ∀ fact, world fact → fact.relation = relation → ∃ r c, fact = .cell relation r c)
    {others : List Test} {meaning : Int → Prop}
    (met : ∀ inner : Binding, (∀ name ∈ outer, inner name = binding name) → ∀ number,
      inner candidate = .num number → ((∀ test ∈ others, test.Holds world inner) ↔ meaning number))
    (offset : Int) (tuple : List Value) :
    Element.Yields world outer binding ⟨[.term (.var candidate offset)],
        .holds (.cell relation (place (.var candidate 0))) :: others⟩ tuple ↔
      ∃ number, (world (.cell relation (row number) (col number)) ∧ meaning number) ∧
        tuple = [.num (number + offset)] := by
  have stands {inner : Binding} (agree : ∀ name ∈ outer, inner name = binding name) {number : Int}
      (bound : inner candidate = .num number) :
      (place (.var candidate 0)).Stands inner (row number) (col number) :=
    runs.stands inner agree 0 number (bound ▸ Term.stands_var candidate)
  have denoted {inner : Binding} {number : Int} (bound : inner candidate = .num number) :
      DenoteAll (Expression.Denotes inner) [.term (.var candidate offset)] tuple ↔
        tuple = [.num (number + offset)] :=
    denoteAll_iff (.cons (Expression.stands_term (Term.stands_var_add bound offset)) .nil)
  constructor
  · intro yields
    obtain ⟨inner, agree, holds, tupled⟩ := yields
    obtain ⟨asked, others⟩ := List.forall_mem_cons.mp holds
    obtain ⟨fact, denotes, inWorld⟩ := id asked
    obtain ⟨r, c, rfl⟩ := cells fact inWorld denotes.1
    obtain ⟨number, bound⟩ := runs.number inner relation r c denotes
    exact ⟨number, ⟨(holds_cell (stands agree bound)).mp asked, (met inner agree number bound).mp others⟩,
      (denoted bound).mp tupled⟩
  · intro found
    obtain ⟨number, ⟨inWorld, isMet⟩, tupled⟩ := found
    obtain ⟨inner, agree, bound⟩ := runs.exists_inner number
    refine ⟨inner, agree, List.forall_mem_cons.mpr ⟨?_, (met inner agree number bound).mpr isMet⟩,
      (denoted bound).mpr tupled⟩
    exact (holds_cell (stands agree bound)).mpr inWorld

theorem compare_holds {inner : Binding} (agree : ∀ name ∈ outer, inner name = binding name) {number : Int}
    (bound : inner candidate = .num number) (comparator : Comparator) :
    (Test.compare comparator (.term (.var candidate 0)) (.term start)).Holds world inner ↔
      comparator.Relates (.num number) (.num first) := by
  have here : (Term.var candidate 0).Stands inner (.num number) := bound ▸ Term.stands_var candidate
  simp only [Test.Holds, Expression.Denotes, here _, runs.start inner agree _, exists_and_left, exists_eq_left]

end Runs

end GridPuzzle
