import Mathlib.Data.List.Forall2
import GridPuzzle.Color
import GridPuzzle.Template.Neighbors
import GridPuzzle.Proofs.Rules.Model

/-!
Rules about cells. Under a binding, each place of a rule stands for one pair of numbers, and the tests
that speak of places ask for the facts about these pairs.
-/
namespace GridPuzzle

namespace Fact

def cell (relation : String) (row col : Int) : Fact := ⟨relation, [.num row, .num col]⟩

def pair (relation : String) (row col row' col' : Int) : Fact :=
  ⟨relation, [.num row, .num col, .num row', .num col']⟩

/-- The relation holds of a cell, the number of a shape and that of its orientation. -/
def placed (relation : String) (row col id : Int) (index : Nat) : Fact :=
  ⟨relation, [.num row, .num col, .num id, .num index]⟩

@[simp] theorem cell_relation (relation : String) (row col : Int) :
    (Fact.cell relation row col).relation = relation := rfl

@[simp] theorem pair_relation (relation : String) (row col row' col' : Int) :
    (pair relation row col row' col').relation = relation := rfl

@[simp] theorem cell_inj {relation relation' : String} {row col row' col' : Int} :
    Fact.cell relation row col = Fact.cell relation' row' col' ↔
      relation = relation' ∧ row = row' ∧ col = col' := by
  simp [Fact.cell]

@[simp] theorem placed_inj {relation relation' : String} {row col id row' col' id' : Int}
    {index index' : Nat} : placed relation row col id index = placed relation' row' col' id' index' ↔
      relation = relation' ∧ row = row' ∧ col = col' ∧ id = id' ∧ index = index' := by
  simp only [placed, Fact.mk.injEq, List.cons.injEq, Value.num.injEq, Int.ofNat_inj, and_true]

@[simp] theorem pair_inj {relation relation' : String} {r c s d r' c' s' d' : Int} :
    pair relation r c s d = pair relation' r' c' s' d' ↔
      relation = relation' ∧ r = r' ∧ c = c' ∧ s = s' ∧ d = d' := by
  simp [pair]

end Fact

@[simp] theorem denoteAll_nil {α : Type} {denotes : α → Value → Prop} {values : List Value} :
    DenoteAll denotes [] values ↔ values = [] := by
  cases values <;> simp [DenoteAll]

@[simp] theorem denoteAll_cons {α : Type} {denotes : α → Value → Prop} {part : α} {parts : List α}
    {values : List Value} : DenoteAll denotes (part :: parts) values ↔
      ∃ value rest, values = value :: rest ∧ denotes part value ∧ DenoteAll denotes parts rest := by
  cases values <;> simp [DenoteAll]

/-- The term stands for this value and no other. -/
def Term.Stands (binding : Binding) (term : Term) (value : Value) : Prop :=
  ∀ other, term.Denotes binding other ↔ other = value

namespace Term

variable {binding : Binding}

theorem stands_int (number : Int) : (Term.int number).Stands binding (.num number) := fun _ => Iff.rfl

theorem stands_var (name : String) : (Term.var name 0).Stands binding (binding name) := fun _ => Iff.rfl

theorem stands_var_add {name : String} {number : Int} (bound : binding name = .num number)
    (offset : Int) : (Term.var name offset).Stands binding (.num (number + offset)) := by
  intro value
  by_cases zero : offset = 0
  · subst zero
    rw [Int.add_zero, ← bound]
    exact Iff.rfl
  · rw [Term.Denotes]
    · rw [bound]
      constructor
      · intro parts
        obtain ⟨number, same, rfl⟩ := parts
        cases same
        rfl
      · intro same
        subst same
        exact ⟨number, rfl, rfl⟩
    · exact zero

end Term

def StandAll (binding : Binding) (terms : List Term) (values : List Value) : Prop :=
  List.Forall₂ (Term.Stands binding) terms values

/-- Where each part stands for one value, the parts together stand for one tuple. -/
theorem denoteAll_iff {α : Type} {denotes : α → Value → Prop} {parts : List α} {values others : List Value}
    (stand : List.Forall₂ (fun part value => ∀ other, denotes part other ↔ other = value) parts values) :
    DenoteAll denotes parts others ↔ others = values := by
  induction stand generalizing others with
  | nil => exact denoteAll_nil
  | cons head tail ih =>
    rw [denoteAll_cons]
    constructor
    · intro parts
      obtain ⟨value, rest, rfl, denoted, denotedRest⟩ := parts
      rw [(head value).mp denoted, ih.mp denotedRest]
    · intro same
      subst same
      exact ⟨_, _, rfl, (head _).mpr rfl, ih.mpr rfl⟩

theorem StandAll.denoteAll_iff {binding : Binding} {terms : List Term} {values others : List Value}
    (stand : StandAll binding terms values) :
    DenoteAll (Term.Denotes binding) terms others ↔ others = values :=
  GridPuzzle.denoteAll_iff stand

theorem Atom.denotes_iff {binding : Binding} {relation : String} {terms : List Term}
    {values : List Value} (stand : StandAll binding terms values) {fact : Fact} :
    Atom.Denotes binding ⟨relation, terms⟩ fact ↔ fact = ⟨relation, values⟩ := by
  unfold Atom.Denotes
  rw [stand.denoteAll_iff]
  cases fact
  simp

/-- The expression stands for this value and no other. -/
def Expression.Stands (binding : Binding) (expression : Expression) (value : Value) : Prop :=
  ∀ other, expression.Denotes binding other ↔ other = value

namespace Expression

variable {binding : Binding} {left right : Expression} {a b : Int}

theorem stands_term {leaf : Term} {value : Value} (stands : leaf.Stands binding value) :
    (term leaf).Stands binding value := stands

theorem stands_abs (stands : left.Stands binding (.num a)) : (abs left).Stands binding (.num a.natAbs) := by
  intro value
  simp only [Denotes, (stands _), Value.num.injEq, exists_eq_left]

theorem stands_add (stands : left.Stands binding (.num a)) (stands' : right.Stands binding (.num b)) :
    (add left right).Stands binding (.num (a + b)) := by
  intro value
  simp only [Denotes, (stands _), (stands' _), Value.num.injEq, exists_and_left, exists_eq_left]

theorem stands_sub (stands : left.Stands binding (.num a)) (stands' : right.Stands binding (.num b)) :
    (sub left right).Stands binding (.num (a - b)) := by
  intro value
  simp only [Denotes, (stands _), (stands' _), Value.num.injEq, exists_and_left, exists_eq_left]

theorem stands_mul (stands : left.Stands binding (.num a)) (stands' : right.Stands binding (.num b)) :
    (mul left right).Stands binding (.num (a * b)) := by
  intro value
  simp only [Denotes, (stands _), (stands' _), Value.num.injEq, exists_and_left, exists_eq_left]

end Expression

namespace Test

variable {world : World} {binding : Binding} {relation : String} {terms : List Term}
  {values : List Value}

theorem holds_iff (stand : StandAll binding terms values) :
    (Test.holds ⟨relation, terms⟩).Holds world binding ↔ world ⟨relation, values⟩ := by
  simp only [Test.Holds, Atom.denotes_iff stand, exists_eq_left]

theorem fails_iff (stand : StandAll binding terms values) :
    (Test.fails ⟨relation, terms⟩).Holds world binding ↔ ¬ world ⟨relation, values⟩ := by
  simp only [Test.Holds, Atom.denotes_iff stand, forall_eq]

theorem compare_eq_iff {left right : Expression} {a b : Int} (stands : left.Stands binding (.num a))
    (stands' : right.Stands binding (.num b)) : (Test.compare .eq left right).Holds world binding ↔ a = b := by
  simp only [Test.Holds, (stands _), (stands' _), Comparator.Relates, exists_and_left, exists_eq_left,
    Value.num.injEq]

end Test

/-- With one test, an element yields a tuple for each fact that the test finds. -/
theorem Element.yields_iff {world : World} {binding : Binding} {relation : String} {terms leaves : List Term}
    {values parts : Binding → List Value} (asked : ∀ inner, StandAll inner terms (values inner))
    (told : ∀ inner, StandAll inner leaves (parts inner)) {tuple : List Value} :
    Element.Yields world [] binding ⟨leaves.map .term, [.holds ⟨relation, terms⟩]⟩ tuple ↔
      ∃ inner, world ⟨relation, values inner⟩ ∧ tuple = parts inner := by
  refine exists_congr fun inner => ?_
  have tupled : DenoteAll (Expression.Denotes inner) (leaves.map .term) tuple ↔ tuple = parts inner :=
    denoteAll_iff (List.forall₂_map_left_iff.mpr (told inner))
  rw [tupled, List.forall_mem_singleton, Test.holds_iff (asked inner)]
  exact and_iff_right nofun

/-- A count is that of any list that has each of the tuples once. -/
theorem Literal.count_holds_iff {world : World} {outer : List String} {binding : Binding} {element : Element}
    {comparator : Comparator} {bound : Int} {tuples : List (List Value)} (distinct : tuples.Nodup)
    (listed : ∀ tuple, tuple ∈ tuples ↔ element.Yields world outer binding tuple) :
    (Literal.count element comparator bound).Holds world outer binding ↔
      comparator.holds tuples.length bound = true := by
  constructor
  · intro counted
    obtain ⟨others, distinct', listed', holds⟩ := counted
    have same : others.Perm tuples :=
      (List.perm_ext_iff_of_nodup distinct' distinct).mpr fun tuple => (listed' tuple).trans (listed tuple).symm
    rwa [same.length_eq] at holds
  · intro holds
    exact ⟨tuples, distinct, listed, holds⟩

namespace Place

def Stands (binding : Binding) (place : Place) (row col : Int) : Prop :=
  place.row.Stands binding (.num row) ∧ place.col.Stands binding (.num col)

/-- The binding puts `here` at a row and a column. -/
def Here (binding : Binding) (row col : Int) : Prop :=
  binding "R" = .num row ∧ binding "C" = .num col

def Other (binding : Binding) (row col : Int) : Prop :=
  binding "R1" = .num row ∧ binding "C1" = .num col

variable {binding : Binding} {row col row' col' : Int} {place place' : Place}

theorem Here.stands (here : Here binding row col) : Place.here.Stands binding row col :=
  ⟨here.1 ▸ Term.stands_var "R", here.2 ▸ Term.stands_var "C"⟩

theorem Other.stands (other : Other binding row col) : Place.other.Stands binding row col :=
  ⟨other.1 ▸ Term.stands_var "R1", other.2 ▸ Term.stands_var "C1"⟩

theorem Here.shift_stands (here : Here binding row col) (down along : Int) :
    Stands binding ⟨Place.here.row.shift down, Place.here.col.shift along⟩ (row + down) (col + along) := by
  have rows := Term.stands_var_add here.1 (0 + down)
  have cols := Term.stands_var_add here.2 (0 + along)
  rw [Int.zero_add] at rows cols
  exact ⟨by simpa [Place.here, Term.shift] using rows, by simpa [Place.here, Term.shift] using cols⟩

theorem Here.step_stands (here : Here binding row col) (offset : Cell) :
    (Place.here.step offset).Stands binding (row + offset.row.val) (col + offset.col.val) :=
  here.shift_stands offset.row.val offset.col.val

theorem ofCell_stands (cell : Cell) :
    (Place.ofCell cell).Stands binding cell.row.val cell.col.val :=
  ⟨Term.stands_int _, Term.stands_int _⟩

theorem Stands.args (stands : place.Stands binding row col) :
    StandAll binding place.args [.num row, .num col] :=
  .cons stands.1 (.cons stands.2 .nil)

theorem Stands.args_append (stands : place.Stands binding row col)
    (stands' : place'.Stands binding row' col') :
    StandAll binding (place.args ++ place'.args) [.num row, .num col, .num row', .num col'] :=
  .cons stands.1 (.cons stands.2 stands'.args)

end Place

theorem Place.exists_here_other (row col row' col' : Int) :
    ∃ binding, Here binding row col ∧ Other binding row' col' :=
  ⟨fun name => if name = "R" then .num row else if name = "C" then .num col
    else if name = "R1" then .num row' else .num col', ⟨rfl, rfl⟩, rfl, rfl⟩

theorem Place.exists_here (row col : Int) : ∃ binding, Here binding row col := by
  obtain ⟨binding, here, _⟩ := exists_here_other row col row col
  exact ⟨binding, here⟩

/-- What does not depend on the rest of the binding is asked for once. -/
theorem Place.exists_here_iff {row col : Int} {property : Binding → Prop} {meaning : Prop}
    (met : ∀ binding, Here binding row col → (property binding ↔ meaning)) :
    (∃ binding, Here binding row col ∧ property binding) ↔ meaning := by
  constructor
  · intro found
    obtain ⟨binding, here, holds⟩ := found
    exact (met binding here).mp holds
  · intro holds
    obtain ⟨binding, here⟩ := exists_here row col
    exact ⟨binding, here, (met binding here).mpr holds⟩

theorem here_args (binding : Binding) : StandAll binding Place.here.args [binding "R", binding "C"] :=
  .cons (Term.stands_var "R") (.cons (Term.stands_var "C") .nil)

theorem other_args (binding : Binding) : StandAll binding Place.other.args [binding "R1", binding "C1"] :=
  .cons (Term.stands_var "R1") (.cons (Term.stands_var "C1") .nil)

theorem holds_here {world : World} {binding : Binding} {relation : String} :
    (Test.holds (.cell relation .here)).Holds world binding ↔
      world ⟨relation, [binding "R", binding "C"]⟩ :=
  Test.holds_iff (here_args binding)

theorem here_denotes {binding : Binding} {relation : String} {fact : Fact} :
    (Atom.cell relation .here).Denotes binding fact ↔ fact = ⟨relation, [binding "R", binding "C"]⟩ :=
  Atom.denotes_iff (here_args binding)

theorem here_denotes_cell {binding : Binding} {relation relation' : String} {row col : Int} :
    (Atom.cell relation .here).Denotes binding (.cell relation' row col) ↔
      relation' = relation ∧ Place.Here binding row col := by
  rw [here_denotes, Fact.cell, Fact.mk.injEq, List.cons.injEq, List.cons.injEq, Place.Here]
  simp only [and_true, eq_comm]

theorem here_other_denotes_pair {binding : Binding} {relation relation' : String}
    {row col row' col' : Int} :
    Atom.Denotes binding ⟨relation, Place.here.args ++ Place.other.args⟩
        (.pair relation' row col row' col') ↔
      relation' = relation ∧ Place.Here binding row col ∧ Place.Other binding row' col' := by
  have all : StandAll binding (Place.here.args ++ Place.other.args)
      [binding "R", binding "C", binding "R1", binding "C1"] :=
    .cons (Term.stands_var "R") (.cons (Term.stands_var "C") (other_args binding))
  rw [Atom.denotes_iff all]
  simp only [Fact.pair, Fact.mk.injEq, List.cons.injEq, and_true, Place.Here, Place.Other, and_assoc,
    @eq_comm Value _ (binding _)]

section Places

variable {world : World} {binding : Binding} {relation : String} {place place' : Place}
  {row col row' col' : Int}

theorem holds_cell (stands : place.Stands binding row col) :
    (Test.holds (.cell relation place)).Holds world binding ↔ world (.cell relation row col) :=
  Test.holds_iff stands.args

theorem fails_cell (stands : place.Stands binding row col) :
    (Test.fails (.cell relation place)).Holds world binding ↔ ¬ world (.cell relation row col) :=
  Test.fails_iff stands.args

theorem holds_pair (stands : place.Stands binding row col) (stands' : place'.Stands binding row' col') :
    (Test.holds ⟨relation, place.args ++ place'.args⟩).Holds world binding ↔
      world (.pair relation row col row' col') :=
  Test.holds_iff (stands.args_append stands')

theorem fails_pair (stands : place.Stands binding row col) (stands' : place'.Stands binding row' col') :
    (Test.fails ⟨relation, place.args ++ place'.args⟩).Holds world binding ↔
      ¬ world (.pair relation row col row' col') :=
  Test.fails_iff (stands.args_append stands')

theorem pair_denotes (stands : place.Stands binding row col) (stands' : place'.Stands binding row' col')
    {fact : Fact} : Atom.Denotes binding ⟨relation, place.args ++ place'.args⟩ fact ↔
      fact = .pair relation row col row' col' :=
  Atom.denotes_iff (stands.args_append stands')

def Color.Matches (world : World) (row col : Int) : Color → Prop
  | .positive name => world (.cell name row col)
  | .negated name => ¬ world (.cell name row col)

/-- A program that does not define a color's relation leaves the color to the given facts. -/
theorem Color.matches_of_model {given : World} {program : Program} {color : Color} (model : program.Model given world)
    (undefined : ¬ program.Defines color.name) : color.Matches world row col ↔ color.Matches given row col := by
  cases color with
  | positive name => exact model.iff_given undefined
  | negated name => exact not_congr (model.iff_given undefined)

theorem holds_on (color : Color) (stands : place.Stands binding row col) :
    (color.on place).Holds world binding ↔ color.Matches world row col := by
  cases color with
  | positive name => exact holds_cell stands
  | negated name => exact fails_cell stands

theorem holds_off (color : Color) (stands : place.Stands binding row col) :
    (color.off place).Holds world binding ↔ ¬ color.Matches world row col := by
  cases color with
  | positive name => exact fails_cell stands
  | negated name => exact (holds_cell stands).trans not_not.symm

end Places

end GridPuzzle
