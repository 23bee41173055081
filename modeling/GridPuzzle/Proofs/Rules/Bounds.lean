import GridPuzzle.Color
import GridPuzzle.Template.Neighbors

/-!
Programs whose numbers fit. The arithmetic that terms go through is exact, so where all numbers of a program have 64
bits and all ways from variables have 32, it could have been done at these widths.
-/
namespace GridPuzzle

/-- A number with a sign in 64 bits. -/
def Fits64 (value : Int) : Prop := -9223372036854775808 ≤ value ∧ value ≤ 9223372036854775807

instance (value : Int) : Decidable (Fits64 value) := inferInstanceAs (Decidable (_ ∧ _))

/-- A way from a variable is written with its size, so that the way back has to have 32 bits as well. -/
def Term.Fits : Term → Prop
  | .int value => Fits64 value
  | .var _ offset => -2147483648 < offset ∧ offset ≤ 2147483647
  | .range first last => Fits64 first ∧ Fits64 last
  | .str _ | .anon | .verbatim _ => True

def Place.Fits (place : Place) : Prop := place.row.Fits ∧ place.col.Fits

def Expression.Fits : Expression → Prop
  | .term leaf => leaf.Fits
  | .abs inner => inner.Fits
  | .add left right | .sub left right | .mul left right => left.Fits ∧ right.Fits

def Atom.Fits (atom : Atom) : Prop := ∀ term ∈ atom.args, term.Fits

def Test.Fits : Test → Prop
  | .holds atom | .fails atom => atom.Fits
  | .compare _ left right => left.Fits ∧ right.Fits

def Element.Fits (element : Element) : Prop :=
  (∀ part ∈ element.tuple, part.Fits) ∧ ∀ condition ∈ element.conditions, condition.Fits

def Literal.Fits : Literal → Prop
  | .test single => single.Fits
  | .extremum _ _ elements => ∀ element ∈ elements, element.Fits
  | .count element _ bound => element.Fits ∧ Fits64 bound
  | .verbatim _ => True

def Choosable.Fits (option : Choosable) : Prop :=
  option.atom.Fits ∧ ∀ condition ∈ option.conditions, condition.Fits

def Statement.Fits : Statement → Prop
  | .fact atom => atom.Fits
  | .rule head body => head.Fits ∧ ∀ literal ∈ body, literal.Fits
  | .constraint body => ∀ literal ∈ body, literal.Fits
  | .choice options bound body => (∀ option ∈ options, option.Fits) ∧ (∀ limit ∈ bound, Fits64 limit.2) ∧
      ∀ literal ∈ body, literal.Fits
  | .directive _ => True

def Program.Fits (program : Program) : Prop := ∀ statement ∈ program.statements, statement.Fits

@[simp] theorem Coord.fits64 (coord : Coord) : Fits64 coord.val := by
  have fits := coord.inRange
  unfold Fits64
  omega

@[simp] theorem fits64_signed64 (count : Nat) : Fits64 (GridPuzzle.signed64 count) := by
  unfold Fits64 GridPuzzle.signed64
  have low := Int.le_bmod (x := (count : Int)) (m := 18446744073709551616) (by omega)
  have high := Int.bmod_lt (x := (count : Int)) (m := 18446744073709551616) (by omega)
  omega

namespace Term

variable {name : String} {first last offset value : Int}

@[simp] theorem fits_int : (int value).Fits ↔ Fits64 value := Iff.rfl

@[simp] theorem fits_var : (var name offset).Fits ↔ -2147483648 < offset ∧ offset ≤ 2147483647 := Iff.rfl

@[simp] theorem fits_range : (range first last).Fits ↔ Fits64 first ∧ Fits64 last := Iff.rfl

@[simp] theorem fits_str (words : String) : (str words).Fits := trivial

@[simp] theorem fits_anon : anon.Fits := trivial

@[simp] theorem fits_verbatim (words : String) : (verbatim words).Fits := trivial

@[simp] theorem fits_ofNat (count : Nat) : (ofNat count).Fits := fits64_signed64 count

end Term

namespace Expression

variable {leaf : Term} {inner left right : Expression}

@[simp] theorem fits_term : (term leaf).Fits ↔ leaf.Fits := Iff.rfl

@[simp] theorem fits_abs : (abs inner).Fits ↔ inner.Fits := Iff.rfl

@[simp] theorem fits_add : (add left right).Fits ↔ left.Fits ∧ right.Fits := Iff.rfl

@[simp] theorem fits_sub : (sub left right).Fits ↔ left.Fits ∧ right.Fits := Iff.rfl

@[simp] theorem fits_mul : (mul left right).Fits ↔ left.Fits ∧ right.Fits := Iff.rfl

end Expression

@[simp] theorem Atom.fits_mk {relation : String} {args : List Term} :
    (Atom.mk relation args).Fits ↔ ∀ term ∈ args, term.Fits := Iff.rfl

namespace Test

variable {atom : Atom} {comparator : Comparator} {left right : Expression}

@[simp] theorem fits_holds : (holds atom).Fits ↔ atom.Fits := Iff.rfl

@[simp] theorem fits_fails : (fails atom).Fits ↔ atom.Fits := Iff.rfl

@[simp] theorem fits_compare : (compare comparator left right).Fits ↔ left.Fits ∧ right.Fits := Iff.rfl

end Test

@[simp] theorem Element.fits_mk {tuple : List Expression} {conditions : List Test} :
    (Element.mk tuple conditions).Fits ↔ (∀ part ∈ tuple, part.Fits) ∧ ∀ condition ∈ conditions, condition.Fits :=
  Iff.rfl

namespace Literal

variable {atom : Atom} {single : Test} {targets : List String} {which : Extremum} {element : Element}
  {elements : List Element} {comparator : Comparator} {bound : Int}

@[simp] theorem fits_test : (test single).Fits ↔ single.Fits := Iff.rfl

@[simp] theorem fits_holds : (holds atom).Fits ↔ atom.Fits := Iff.rfl

@[simp] theorem fits_fails : (fails atom).Fits ↔ atom.Fits := Iff.rfl

@[simp] theorem fits_extremum :
    (extremum targets which elements).Fits ↔ ∀ element ∈ elements, element.Fits := Iff.rfl

@[simp] theorem fits_count : (count element comparator bound).Fits ↔ element.Fits ∧ Fits64 bound := Iff.rfl

end Literal

@[simp] theorem Choosable.fits_mk {atom : Atom} {conditions : List Literal} :
    (Choosable.mk atom conditions).Fits ↔ atom.Fits ∧ ∀ condition ∈ conditions, condition.Fits := Iff.rfl

namespace Statement

variable {atom head : Atom} {body : List Literal} {options : List Choosable} {bound : Option (Comparator × Int)}

@[simp] theorem fits_fact : (fact atom).Fits ↔ atom.Fits := Iff.rfl

@[simp] theorem fits_rule : (rule head body).Fits ↔ head.Fits ∧ ∀ literal ∈ body, literal.Fits := Iff.rfl

@[simp] theorem fits_constraint : (constraint body).Fits ↔ ∀ literal ∈ body, literal.Fits := Iff.rfl

@[simp] theorem fits_choice : (choice options bound body).Fits ↔ (∀ option ∈ options, option.Fits) ∧
    (∀ limit ∈ bound, Fits64 limit.2) ∧ ∀ literal ∈ body, literal.Fits := Iff.rfl

@[simp] theorem fits_directive (words : String) : (directive words).Fits := trivial

end Statement

@[simp] theorem Program.fits_mk {statements : List Statement} :
    (Program.mk statements).Fits ↔ ∀ statement ∈ statements, statement.Fits := Iff.rfl

namespace Place

@[simp] theorem fits_mk {row col : Term} : (Place.mk row col).Fits ↔ row.Fits ∧ col.Fits := Iff.rfl

@[simp] theorem fits_args {place : Place} : (∀ term ∈ place.args, term.Fits) ↔ place.Fits := by
  simp [args, Fits]

@[simp] theorem fits_here : here.Fits := by simp [here]

@[simp] theorem fits_other : other.Fits := by simp [other]

@[simp] theorem fits_here_row : here.row.Fits := fits_here.1

@[simp] theorem fits_here_col : here.col.Fits := fits_here.2

@[simp] theorem fits_other_row : other.row.Fits := fits_other.1

@[simp] theorem fits_other_col : other.col.Fits := fits_other.2

@[simp] theorem fits_ofCell (cell : Cell) : (ofCell cell).Fits := by simp [ofCell]

theorem fits_step {offset : Cell} :
    (here.step offset).Fits ↔ -2147483648 < offset.row.val ∧ -2147483648 < offset.col.val := by
  have rows := offset.row.inRange
  have cols := offset.col.inRange
  simp only [step, here, Term.shift, fits_mk, Term.fits_var]
  omega

@[simp] theorem fits_ofCell_row (cell : Cell) : (ofCell cell).row.Fits := (fits_ofCell cell).1

@[simp] theorem fits_ofCell_col (cell : Cell) : (ofCell cell).col.Fits := (fits_ofCell cell).2

@[simp] theorem fits_step_of (row col : Int8) : (here.step (.of row col)).Fits := by
  have low := row.le_toInt
  have left := col.le_toInt
  have same : (Cell.of row col).row.val = row.toInt ∧ (Cell.of row col).col.val = col.toInt := ⟨rfl, rfl⟩
  rw [fits_step]
  omega

@[simp] theorem fits_side (side : Side) : (here.step side.offset).Fits := by
  cases side <;> exact fits_step_of _ _

end Place

@[simp] theorem Atom.fits_cell {relation : String} {place : Place} : (cell relation place).Fits ↔ place.Fits :=
  Place.fits_args

namespace Test

@[simp] theorem fits_onGrid {place : Place} : (onGrid place).Fits ↔ place.Fits := Atom.fits_cell

@[simp] theorem fits_offGrid {place : Place} : (offGrid place).Fits ↔ place.Fits := Atom.fits_cell

@[simp] theorem fits_inArea {area : Term} {place : Place} : (inArea area place).Fits ↔ area.Fits ∧ place.Fits := by
  simp [inArea]

@[simp] theorem fits_on {color : Color} {place : Place} : (color.on place).Fits ↔ place.Fits := by
  cases color <;> exact Atom.fits_cell

@[simp] theorem fits_off {color : Color} {place : Place} : (color.off place).Fits ↔ place.Fits := fits_on

end Test

@[simp] theorem Scope.fits_areaVariable : areaVariable.Fits := by simp [areaVariable]

@[simp] theorem Scope.fits_covers {scope : Scope} {place : Place} : (scope.covers place).Fits ↔ place.Fits := by
  cases scope <;> simp [covers]

@[simp] theorem Scope.fits_keyed {scope : Scope} {relation : String} {args : List Term} :
    (scope.keyed relation args).Fits ↔ ∀ term ∈ args, term.Fits := by
  cases scope <;> simp [keyed]

@[simp] theorem Adjacency.fits_joins {kind : Adjacency} {a b : Place} : (kind.joins a b).Fits ↔ a.Fits ∧ b.Fits := by
  simp [joins, or_imp, forall_and]

@[simp] theorem Side.fits_fact {side : Side} {relation : String} {place : Place} :
    (side.fact relation place).Fits ↔ place.Fits := by
  simp [fact, or_imp, forall_and]

end GridPuzzle
