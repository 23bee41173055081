import Mathlib.Data.List.Infix
import GridPuzzle.Color
import GridPuzzle.Proofs.Legible

/-!
Labels as words. A label starts with its base word and holds each parameter word whole, so it is none of
the fixed relations and not the name of a color that it carries.
-/
namespace GridPuzzle.Label

variable {base : String} {parts : List Part}

theorem toList_join (base : String) (parts : List Part) : (join base parts).toList =
    base.toList ++ (parts.filterMap Part.text?).flatMap fun word => separator :: word.toList := by
  unfold join
  induction parts.filterMap Part.text? generalizing base with
  | nil => simp
  | cons word words ih => simp [ih]

theorem base_isPrefix (base : String) (parts : List Part) : base.toList <+: (join base parts).toList := by
  rw [toList_join]
  exact List.prefix_append _ _

theorem head?_join (parts : List Part) (worded : base.toList ≠ []) :
    (join base parts).toList.head? = base.toList.head? := by
  obtain ⟨first, rest, same⟩ := List.exists_cons_of_ne_nil worded
  rw [toList_join, same]
  rfl

theorem join_ne {other : String} (worded : base.toList ≠ [])
    (apart : base.toList.head? ≠ other.toList.head?) : join base parts ≠ other := by
  intro same
  rw [← same, head?_join parts worded] at apart
  exact apart rfl

theorem join_injective (parts : List Part) : Function.Injective fun base => join base parts := by
  intro base base' same
  have lists := congrArg String.toList same
  simp only [toList_join, List.append_cancel_right_eq] at lists
  exact String.toList_inj.mp lists

theorem length_plain (words : String) : (plain words).length = words.length := by
  simp [plain]

theorem plain_eq {words : String} (kept : ∀ char ∈ words.toList, ¬ (char = '-' ∨ char = ' ')) :
    plain words = words := by
  apply String.toList_inj.mp
  rw [plain, String.toList_map]
  exact (List.map_congr_left fun char member => if_neg (kept char member)).trans (List.map_id _)

theorem name_length_lt (base : String) {color : Color} (carried : .ofColor color ∈ parts) :
    color.name.length < (join base parts).length := by
  have word : plain color.word ∈ parts.filterMap Part.text? := List.mem_filterMap.mpr ⟨_, carried, rfl⟩
  have held : (separator :: (plain color.word).toList).length ≤
      ((parts.filterMap Part.text?).flatMap fun word => separator :: word.toList).length := by
    rw [List.flatMap_def]
    refine List.Sublist.length_le (List.sublist_flatten_of_mem (List.mem_map.mpr ⟨_, word, ?_⟩))
    rfl
  have longer : color.name.length ≤ color.word.length := by
    cases color with
    | positive name => exact Nat.le_refl _
    | negated name => simp [Color.word, Color.name]
  have total := congrArg List.length (toList_join base parts)
  simp only [List.length_append, String.length_toList, List.length_cons, length_plain] at held total
  omega

theorem join_ne_name {color : Color} (carried : .ofColor color ∈ parts) : join base parts ≠ color.name := by
  intro same
  have longer := name_length_lt base carried
  rw [same] at longer
  exact Nat.lt_irrefl _ longer

theorem join_append (base : String) (parts parts' : List Part) :
    join base (parts ++ parts') = join (join base parts) parts' := by
  simp only [join, List.filterMap_append, List.foldl_append]

/-- The base ends where the label does or at a separator. -/
theorem base_separator_isPrefix (base : String) (parts : List Part) :
    base.toList ++ [separator] <+: (join base parts).toList ++ [separator] := by
  rw [toList_join, List.append_assoc]
  refine (List.prefix_append_right_inj _).mpr ?_
  cases parts.filterMap Part.text? with
  | nil => exact List.prefix_rfl
  | cons word words => simp

theorem base_isPrefix_or {base' : String} {parts' : List Part} (same : join base parts = join base' parts') :
    base.toList ++ [separator] <+: base'.toList ++ [separator] ∨
      base'.toList ++ [separator] <+: base.toList ++ [separator] :=
  List.prefix_or_prefix_of_prefix (base_separator_isPrefix base parts) (same ▸ base_separator_isPrefix base' parts')

/-- A word without a separator ends where the first separator is. -/
theorem word_append_inj {word word' rest rest' : List Char} (whole : separator ∉ word) (whole' : separator ∉ word')
    (starts : ∀ char ∈ rest.head?, char = separator) (starts' : ∀ char ∈ rest'.head?, char = separator)
    (same : word ++ rest = word' ++ rest') : word = word' ∧ rest = rest' :=
  GridPuzzle.word_append_inj (· ≠ separator) (fun _ member same => whole (same ▸ member))
    (fun _ member same => whole' (same ▸ member)) (fun char first => not_not.mpr (starts char first))
    (fun char first => not_not.mpr (starts' char first)) same

end GridPuzzle.Label

namespace GridPuzzle.Color

def Accepted (color : Color) : Prop := ∃ name, ofName name = .ok color ∨ ofNegatedName name = .ok color

theorem checkName_eq_ok {name : String} (checked : checkName name = .ok ()) :
    isName name.toList = true ∧ isReserved name.toList = false := by
  unfold checkName at checked
  split at checked
  · next isName =>
    split at checked
    · cases checked
    · next unreserved => exact ⟨isName, Bool.eq_false_iff.mpr unreserved⟩
  · cases checked

theorem Accepted.name {color : Color} (accepted : color.Accepted) :
    isName color.name.toList = true ∧ isReserved color.name.toList = false := by
  obtain ⟨name, built⟩ := accepted
  have checked : checkName name = .ok () ∧ color.name = name := by
    cases check : checkName name with
    | error error => simp [ofName, ofNegatedName, check, Bind.bind, Except.bind] at built
    | ok _ =>
      simp only [ofName, ofNegatedName, check, Bind.bind, Except.bind, Pure.pure, Except.pure, Except.ok.injEq]
        at built
      rcases built with rfl | rfl <;> exact ⟨rfl, rfl⟩
  rw [checked.2]
  exact checkName_eq_ok checked.1

theorem mem_of_isName {chars : List Char} (named : isName chars = true) {char : Char} (member : char ∈ chars) :
    char.isAlphanum ∨ char = '_' := by
  cases chars with
  | nil => cases member
  | cons first rest =>
    simp only [isName, Bool.and_eq_true, List.all_eq_true, Bool.or_eq_true, beq_iff_eq] at named
    rcases List.mem_cons.mp member with rfl | member
    · have lower : (char.isUpper || char.isLower || char.isDigit) = true := by simp [named.1]
      exact .inl lower
    · exact named.2 char member

/-- The word of an accepted color is taken into labels as it is. -/
theorem Accepted.plain_word {color : Color} (accepted : color.Accepted) : Label.plain color.word = color.word := by
  refine Label.plain_eq fun char member => ?_
  have named : char ∈ color.name.toList → char.isAlphanum ∨ char = '_' := mem_of_isName accepted.name.1
  have inWord : char ∈ "not_".toList ∨ char ∈ color.name.toList := by
    cases color with
    | positive name => exact .inr member
    | negated name => rwa [word, String.toList_append, List.mem_append] at member
  rintro (rfl | rfl)
  · exact inWord.elim (by decide) fun member => absurd (named member) (by decide)
  · exact inWord.elim (by decide) fun member => absurd (named member) (by decide)

/-- Without the reserved start, a name is not the word of a negated color. -/
theorem Accepted.word_injective {color other : Color} (accepted : color.Accepted) (accepted' : other.Accepted)
    (same : color.word = other.word) : color = other := by
  have unreserved {name name' : String} (plain : isReserved name.toList = false) : name ≠ "not_" ++ name' := by
    rintro rfl
    rw [String.toList_append] at plain
    exact absurd plain (by simp [isReserved])
  cases color with
  | positive name =>
    cases other with
    | positive name' => exact congrArg positive same
    | negated name' => exact absurd same (unreserved accepted.name.2)
  | negated name =>
    cases other with
    | positive name' => exact absurd same.symm (unreserved accepted'.name.2)
    | negated name' => exact congrArg negated (String.append_right_inj _ |>.mp same)

end GridPuzzle.Color
