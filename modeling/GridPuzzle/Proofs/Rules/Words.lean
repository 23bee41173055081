import GridPuzzle.Proofs.Legible
import GridPuzzle.Rules.Term

/-!
The words of terms. Numbers are told by their digits, variables and the numbers beside them by name and distance,
and strings by what stands between their quotes, so a term is read up to the comma or the bracket behind it.
-/
namespace GridPuzzle

theorem natRepr_injective : Function.Injective Nat.repr := by
  intro m n same
  have digits := congrArg String.toList same
  rw [Nat.toList_repr, Nat.toList_repr] at digits
  have values := congrArg (Nat.ofDigitChars 10 · 0) digits
  simpa only [Nat.ofDigitChars_toDigits (by decide : 1 < 10) (by decide : 10 ≤ 10)] using values

theorem isDigit_of_mem_natRepr {number : Nat} {char : Char} (member : char ∈ number.repr.toList) :
    char.isDigit = true := by
  rw [Nat.toList_repr] at member
  exact Nat.isDigit_of_mem_toDigits (by decide) (by decide) member

theorem intRepr_injective : Function.Injective Int.repr := by
  have apart (m n : Nat) : m.repr ≠ "-" ++ n.repr := by
    intro same
    have minus : '-' ∈ m.repr.toList := by simp [same]
    exact absurd (isDigit_of_mem_natRepr minus) (by decide)
  intro a b same
  cases a with
  | ofNat m =>
    cases b with
    | ofNat n => exact congrArg Int.ofNat (natRepr_injective same)
    | negSucc n => exact (apart m _ same).elim
  | negSucc m =>
    cases b with
    | ofNat n => exact (apart n _ same.symm).elim
    | negSucc n =>
      have digits : m.succ.repr = n.succ.repr := String.append_right_inj _ |>.mp same
      exact congrArg Int.negSucc (Nat.succ.inj (natRepr_injective digits))

theorem mem_intRepr {value : Int} {char : Char} (member : char ∈ value.repr.toList) :
    char.isDigit = true ∨ char = '-' := by
  cases value with
  | ofNat number => exact .inl (isDigit_of_mem_natRepr member)
  | negSucc number =>
    have member : char ∈ ("-" ++ number.succ.repr).toList := member
    rw [String.toList_append, List.mem_append] at member
    exact member.symm.imp isDigit_of_mem_natRepr List.mem_singleton.mp

theorem natRepr_ne_empty (number : Nat) : number.repr ≠ "" :=
  fun empty => Nat.toDigits_ne_nil (Nat.toList_repr ▸ String.toList_eq_nil_iff.mpr empty)

theorem intRepr_ne_empty (value : Int) : value.repr ≠ "" := by
  cases value with
  | ofNat number => exact natRepr_ne_empty number
  | negSucc number => exact fun empty => absurd (String.append_eq_empty_iff.mp empty).1 (by decide)

theorem legible_int {marks : List String} (worded : "" ∉ marks)
    (stops : ∀ mark ∈ marks, ∀ char ∈ mark.toList.head?, ¬ (char.isDigit = true ∨ char = '-')) :
    Legible Int.repr (fun _ => True) marks :=
  (Legible.word _ worded stops).comap (fun _ _ _ => mem_intRepr) fun _ _ _ _ same => intRepr_injective same

theorem not_isDigit_of_isUpper {char : Char} (upper : char.isUpper = true) : ¬ char.isDigit = true := by
  intro digit
  have letter : 65 ≤ char.val ∧ char.val ≤ 90 := of_decide_eq_true upper
  have number : (decide (48 ≤ char.val) && decide (char.val ≤ 57)) = true := digit
  rw [Bool.and_eq_true, decide_eq_true_iff, decide_eq_true_iff] at number
  exact absurd (UInt32.le_trans letter.1 number.2) (by decide)

/-- Whether symbols are held as terms of their own or as the words that are written. -/
inductive Spelling
  | parsed
  | verbatim
  deriving DecidableEq

namespace Term

def isVariable : List Char → Bool
  | [] => false
  | first :: rest => first.isUpper && rest.all Char.isAlphanum

/-- The words of a variable, of a number some way before or after it, or of what stands for any value. -/
inductive IsSymbol : String → Prop
  | anon : IsSymbol "_"
  | name {name : String} (named : isVariable name.toList = true) : IsSymbol name
  | shifted {name sign digits : String} (named : isVariable name.toList = true) (sign_mem : sign ∈ [" + ", " - "])
    (nonempty : digits ≠ "") (digits_all : ∀ char ∈ digits.toList, char.isDigit = true) :
    IsSymbol (name ++ (sign ++ digits))

/-- The term is a symbol, held in this way. -/
def Symbolic (spelling : Spelling) : Term → Prop
  | .anon => spelling = .parsed
  | .var name _ => spelling = .parsed ∧ isVariable name.toList = true
  | .verbatim words => spelling = .verbatim ∧ IsSymbol words
  | _ => False

/-- The term is a number, a symbol, or a string without quotes and new lines. -/
def Plain (spelling : Spelling) : Term → Prop
  | .int _ => True
  | .str words => ∀ char ∈ words.toList, char ≠ '"' ∧ char ≠ '\n'
  | term => term.Symbolic spelling

variable {spelling : Spelling} {term : Term} {name words : String}

theorem leads_variable (named : isVariable name.toList = true) : Leads (fun char => char.isUpper = true) name := by
  unfold Leads
  cases chars : name.toList with
  | nil => simp [chars, isVariable] at named
  | cons first rest =>
    rw [chars, isVariable, Bool.and_eq_true] at named
    exact ⟨first, rfl, named.1⟩

theorem isAlphanum_of_variable (named : isVariable name.toList = true) :
    ∀ char ∈ name.toList, char.isAlphanum = true := by
  cases chars : name.toList with
  | nil => exact nofun
  | cons first rest =>
    rw [chars, isVariable, Bool.and_eq_true, List.all_eq_true] at named
    have upper : (first.isUpper || first.isLower || first.isDigit) = true := by simp [named.1]
    exact List.forall_mem_cons.mpr ⟨upper, named.2⟩

/-- What is written for the number to go from a variable. -/
def offsetText (offset : Int) : String :=
  if offset = 0 then "" else if 0 < offset then " + " ++ offset.repr else " - " ++ (-offset).repr

theorem text_var (name : String) (offset : Int) : (var name offset).text = name ++ offsetText offset := by
  simp only [text, offsetText]
  split
  · simp
  · split <;> simp [String.append_assoc]

theorem offsetText_pos {offset : Int} (positive : 0 < offset) : offsetText offset = " + " ++ offset.repr := by
  rw [offsetText, if_neg (by omega), if_pos positive]

theorem offsetText_neg {offset : Int} (negative : offset < 0) : offsetText offset = " - " ++ (-offset).repr := by
  rw [offsetText, if_neg (by omega), if_neg (by omega)]

theorem opens_offset (offset : Int) {rest : List Char} (opens : Opens [","] rest) :
    Opens [" ", ","] ((offsetText offset).toList ++ rest) := by
  have spaced {sign digits : String} (extends_ : Extends [sign] [" ", ","]) :
      Opens [" ", ","] ((sign ++ digits).toList ++ rest) := by
    rw [String.toList_append, List.append_assoc]
    exact (Opens.append (List.mem_singleton_self sign) _).mono extends_
  rcases Int.lt_trichotomy offset 0 with negative | rfl | positive
  · exact offsetText_neg negative ▸ spaced (by decide)
  · exact opens.cons
  · exact offsetText_pos positive ▸ spaced (by decide)

theorem legible_offset : Legible offsetText (fun _ => True) [","] := by
  have ints : Legible Int.repr (fun _ => True) [","] := legible_int (by simp) (by simp)
  have up : Legible offsetText (0 < ·) [","] :=
    ((ints.of_imp fun _ _ => trivial).after " + ").congr fun _ positive => (offsetText_pos positive).symm
  have down : Legible offsetText (· < 0) [","] :=
    ((ints.comap (fun _ _ => trivial) fun _ _ _ _ => Int.neg_inj.mp).after " - ").congr
      fun _ negative => (offsetText_neg negative).symm
  refine .of_blank 0 ((up.or down ?_).of_imp fun offset both => ?_) rfl fun offset rest _ differs => ?_
  · intro a b rest rest' positive negative _ _
    simp [offsetText_pos positive, offsetText_neg negative]
  · have differs := both.2
    omega
  · rcases Int.lt_or_gt_of_ne differs with negative | positive
    · rw [offsetText_neg negative, String.toList_append, List.append_assoc]
      exact Legible.not_opens_mark (by decide) _
    · rw [offsetText_pos positive, String.toList_append, List.append_assoc]
      exact Legible.not_opens_mark (by decide) _

theorem var_text_inj {name' : String} {offset offset' : Int} (named : isVariable name.toList = true)
    (named' : isVariable name'.toList = true) (same : (var name offset).text = (var name' offset').text) :
    name = name' ∧ offset = offset' := by
  have names : Legible id (fun name => isVariable name.toList = true) [" ", ","] :=
    (Legible.word (fun char => char.isAlphanum = true) (by simp) (by simp)).of_imp fun name => isAlphanum_of_variable
  have legible := names.append legible_offset fun offset rest _ => opens_offset offset
  rw [text_var, text_var] at same
  exact Prod.mk.inj (legible.injOn (by simp) (a := (name, offset)) (b := (name', offset'))
    ⟨named, trivial⟩ ⟨named', trivial⟩ same)

theorem IsSymbol.leads (symbol : IsSymbol words) : Leads (fun char => char = '_' ∨ char.isUpper = true) words := by
  cases symbol with
  | anon => exact ⟨'_', rfl, .inl rfl⟩
  | name named =>
    obtain ⟨char, first, upper⟩ := leads_variable named
    exact ⟨char, first, .inr upper⟩
  | shifted named =>
    obtain ⟨char, first, upper⟩ := (leads_variable named).append _
    exact ⟨char, first, .inr upper⟩

theorem IsSymbol.mem (symbol : IsSymbol words) {char : Char} (member : char ∈ words.toList) :
    char.isAlphanum = true ∨ char ∈ ['_', ' ', '+', '-'] := by
  cases symbol with
  | anon => exact .inr (List.mem_singleton.mp member ▸ List.mem_cons_self)
  | name named => exact .inl (isAlphanum_of_variable named char member)
  | @shifted name sign digits named sign_mem nonempty digits_all =>
    simp only [String.toList_append, List.mem_append] at member
    rcases member with inName | inSign | inDigits
    · exact .inl (isAlphanum_of_variable named char inName)
    · right
      rcases List.mem_pair.mp sign_mem with rfl | rfl
      · simp at inSign ⊢
        tauto
      · simp at inSign ⊢
        tauto
    · have digit : (char.isUpper || char.isLower || char.isDigit) = true := by simp [digits_all char inDigits]
      exact .inl digit

theorem isSymbol_var (named : isVariable name.toList = true) (offset : Int) : IsSymbol (var name offset).text := by
  have shifted {sign : String} (sign_mem : sign ∈ [" + ", " - "]) {distance : Int} (positive : 0 < distance) :
      IsSymbol (name ++ (sign ++ distance.repr)) := by
    obtain ⟨number, rfl⟩ := Int.eq_ofNat_of_zero_le (Int.le_of_lt positive)
    exact .shifted named sign_mem (natRepr_ne_empty number) fun char => isDigit_of_mem_natRepr
  rw [text_var]
  rcases Int.lt_trichotomy offset 0 with negative | rfl | positive
  · exact offsetText_neg negative ▸ shifted (by simp) (by omega)
  · rw [show name ++ offsetText 0 = name from String.append_empty]
    exact .name named
  · exact offsetText_pos positive ▸ shifted (by simp) positive

theorem Symbolic.isSymbol (symbolic : term.Symbolic spelling) : IsSymbol term.text := by
  cases term with
  | anon => exact .anon
  | var name offset => exact isSymbol_var symbolic.2 offset
  | verbatim words => exact symbolic.2
  | int | str | range => exact symbolic.elim

theorem Symbolic.injOn {other : Term} (symbolic : term.Symbolic spelling) (symbolic' : other.Symbolic spelling)
    (same : term.text = other.text) : term = other := by
  have anon_ne {name : String} {offset : Int} (named : isVariable name.toList = true) :
      "_" ≠ (var name offset).text := by
    intro same
    obtain ⟨char, first, upper⟩ := (leads_variable named).append (offsetText offset)
    rw [← text_var, ← same] at first
    cases first
    exact absurd upper (by decide)
  cases spelling with
  | parsed =>
    cases term with
    | anon =>
      cases other with
      | anon => rfl
      | var name' offset' => exact (anon_ne symbolic'.2 same).elim
      | verbatim => exact absurd symbolic'.1 nofun
      | int | str | range => exact symbolic'.elim
    | var name offset =>
      cases other with
      | anon => exact (anon_ne symbolic.2 same.symm).elim
      | var name' offset' =>
        obtain ⟨rfl, rfl⟩ := var_text_inj symbolic.2 symbolic'.2 same
        rfl
      | verbatim => exact absurd symbolic'.1 nofun
      | int | str | range => exact symbolic'.elim
    | verbatim => exact absurd symbolic.1 nofun
    | int | str | range => exact symbolic.elim
  | verbatim =>
    cases term <;> cases other <;> simp_all [Symbolic, text]

theorem IsSymbol.notMem (symbol : IsSymbol words) {char : Char}
    (foreign : ¬ (char.isAlphanum = true ∨ char ∈ ['_', ' ', '+', '-'])) : char ∉ words.toList :=
  fun member => foreign (symbol.mem member)

theorem Plain.cases (plain : term.Plain spelling) : (∃ value, int value = term) ∨
    (∃ words : String, (∀ char ∈ words.toList, char ≠ '"' ∧ char ≠ '\n') ∧ str words = term) ∨
      term.Symbolic spelling := by
  cases term with
  | int value => exact .inl ⟨value, rfl⟩
  | str words => exact .inr (.inl ⟨words, plain, rfl⟩)
  | anon | var | verbatim | range => exact .inr (.inr plain)

theorem leads_int (value : Int) : Leads (fun char => char.isDigit = true ∨ char = '-') (int value).text :=
  .of_all (intRepr_ne_empty value) fun _ => mem_intRepr

theorem leads_str (words : String) : Leads (· = '"') (str words).text := by
  have quote : Leads (· = '"') "\"" := ⟨'"', rfl, rfl⟩
  exact (quote.append words).append _

theorem Plain.leads (plain : term.Plain spelling) : Leads (· ≠ ')') term.text := by
  rcases plain.cases with ⟨value, rfl⟩ | ⟨words, _, rfl⟩ | symbolic
  · exact (leads_int value).imp fun char => by rintro own rfl; exact absurd own (by decide)
  · exact (leads_str words).imp fun char => by rintro rfl; decide
  · exact symbolic.isSymbol.leads.imp fun char => by rintro own rfl; exact absurd own (by decide)

/-- A term is read up to the comma or the bracket behind it, where a string goes on to its second quote. -/
theorem legible (spelling : Spelling) : Legible text (Plain spelling) [", ", ")"] := by
  have ints : Legible text (fun term => ∃ value, True ∧ int value = term) [", ", ")"] :=
    Legible.image int (legible_int (by simp) (by simp))
  have symbols : Legible text (Symbolic spelling) [", ", ")"] := by
    refine (Legible.word (fun char => char ≠ ',' ∧ char ≠ ')') (by simp) (by simp)).comap ?_
      fun _ _ => Symbolic.injOn
    intro term symbolic char member
    have notMem {char : Char} := @IsSymbol.notMem _ symbolic.isSymbol char
    exact ⟨fun same => notMem (by decide) (same ▸ member), fun same => notMem (by decide) (same ▸ member)⟩
  have strings : Legible text (fun term => ∃ words : String, (∀ char ∈ words.toList, char ≠ '"') ∧ str words = term)
      [", ", ")"] := by
    have inner : Legible id (fun words : String => ∀ char ∈ words.toList, char ≠ '"') ["\""] :=
      Legible.word _ (by simp) (by simp)
    exact Legible.image str (((inner.before [", ", ")"]).after "\"").congr fun words _ => String.append_assoc.symm)
  -- a number, a symbol and a string start apart
  have unquoted : Legible text (fun term => (∃ value, True ∧ int value = term) ∨ term.Symbolic spelling)
      [", ", ")"] := by
    refine ints.or_of_leads symbols (fun char => char.isDigit = true ∨ char = '-') ?_ ?_
    · intro term here
      obtain ⟨value, _, rfl⟩ := here
      exact leads_int value
    · intro term symbolic
      refine symbolic.isSymbol.leads.imp fun char isLead number => ?_
      rcases isLead with rfl | upper
      · exact absurd number (by decide)
      · rcases number with digit | rfl
        · exact not_isDigit_of_isUpper upper digit
        · exact absurd upper (by decide)
  refine (strings.or_of_leads unquoted (· = '"') ?_ ?_).of_imp fun term plain => ?_
  · intro term here
    obtain ⟨words, _, rfl⟩ := here
    exact leads_str words
  · intro term here
    rcases here with ⟨value, _, rfl⟩ | symbolic
    · exact (leads_int value).imp fun char => by rintro own rfl; exact absurd own (by decide)
    · exact symbolic.isSymbol.leads.imp fun char => by rintro own rfl; exact absurd own (by decide)
  · rcases plain.cases with ⟨value, rfl⟩ | ⟨words, inside, rfl⟩ | symbolic
    · exact .inr (.inl ⟨value, trivial, rfl⟩)
    · exact .inl ⟨words, fun char member => (inside char member).1, rfl⟩
    · exact .inr (.inr symbolic)

end Term

end GridPuzzle
