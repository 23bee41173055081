import Mathlib.Data.List.Infix

/-!
Texts that are read back. An item is legible among others if its text, with anything after it that starts with one of
the marks, tells the item and where its text ends. Legible texts stay so when they are put one after the other, into
brackets or into lists, and classes of items are legible together if no text of one class goes on like one of the other.
-/
namespace GridPuzzle

/-- Of two words that are not left until they end, one after the other is read in one way. -/
theorem word_append_inj (inside : Char → Prop) {word word' rest rest' : List Char}
    (whole : ∀ char ∈ word, inside char) (whole' : ∀ char ∈ word', inside char)
    (stops : ∀ char ∈ rest.head?, ¬ inside char) (stops' : ∀ char ∈ rest'.head?, ¬ inside char)
    (same : word ++ rest = word' ++ rest') : word = word' ∧ rest = rest' := by
  induction word generalizing word' with
  | nil =>
    cases word' with
    | nil => exact ⟨rfl, same⟩
    | cons char word' =>
      rw [List.nil_append] at same
      rw [same] at stops
      exact absurd (whole' char List.mem_cons_self) (stops char rfl)
  | cons char word ih =>
    cases word' with
    | nil =>
      rw [List.nil_append] at same
      rw [← same] at stops'
      exact absurd (whole char List.mem_cons_self) (stops' char rfl)
    | cons char' word' =>
      obtain ⟨rfl, next⟩ := List.cons.inj same
      obtain ⟨rfl, rest⟩ := ih (fun other member => whole other (List.mem_cons_of_mem _ member))
        (fun other member => whole' other (List.mem_cons_of_mem _ member)) next
      exact ⟨rfl, rest⟩

/-- The text starts with one of the marks. -/
def Opens (marks : List String) (rest : List Char) : Prop := ∃ mark ∈ marks, mark.toList <+: rest

/-- None of the marks starts another one, so no text opens with both. -/
def Unlike (marks marks' : List String) : Prop :=
  ∀ mark ∈ marks, ∀ mark' ∈ marks', ¬ mark.toList <+: mark'.toList ∧ ¬ mark'.toList <+: mark.toList

instance (marks marks' : List String) : Decidable (Unlike marks marks') :=
  inferInstanceAs (Decidable (∀ mark ∈ marks, ∀ mark' ∈ marks', _ ∧ _))

/-- Each of the marks starts with one of the others. -/
def Extends (marks marks' : List String) : Prop := ∀ mark ∈ marks, ∃ mark' ∈ marks', mark'.toList <+: mark.toList

instance (marks marks' : List String) : Decidable (Extends marks marks') :=
  inferInstanceAs (Decidable (∀ mark ∈ marks, ∃ mark' ∈ marks', _))

namespace Opens

variable {marks marks' : List String} {rest : List Char} {mark : String}

theorem append (member : mark ∈ marks) (rest : List Char) : Opens marks (mark.toList ++ rest) :=
  ⟨mark, member, List.prefix_append _ _⟩

theorem mono (opens : Opens marks rest) (longer : Extends marks marks') : Opens marks' rest := by
  obtain ⟨mark, member, starts⟩ := opens
  obtain ⟨mark', member', shorter⟩ := longer mark member
  exact ⟨mark', member', shorter.trans starts⟩

theorem cons (opens : Opens marks rest) : Opens (mark :: marks) rest :=
  opens.mono fun mark member => ⟨mark, List.mem_cons_of_mem _ member, List.prefix_rfl⟩

theorem of_anywhere (rest : List Char) : Opens [""] rest := ⟨"", List.mem_singleton_self _, List.nil_prefix⟩

theorem absurd (opens : Opens marks rest) (opens' : Opens marks' rest) (unlike : Unlike marks marks') : False := by
  obtain ⟨mark, member, starts⟩ := opens
  obtain ⟨mark', member', starts'⟩ := opens'
  exact (List.prefix_or_prefix_of_prefix starts starts').elim (unlike mark member mark' member').1
    (unlike mark member mark' member').2

theorem exists_head (opens : Opens marks rest) (worded : "" ∉ marks) :
    ∃ char ∈ rest.head?, ∃ mark ∈ marks, char ∈ mark.toList.head? := by
  obtain ⟨mark, member, tail, rfl⟩ := opens
  cases same : mark.toList with
  | nil => exact (worded (String.toList_eq_nil_iff.mp same ▸ member)).elim
  | cons char word => exact ⟨char, rfl, mark, member, same ▸ rfl⟩

end Opens

/-- The text has a first character, which is of this kind. -/
def Leads (lead : Char → Prop) (words : String) : Prop := ∃ char ∈ words.toList.head?, lead char

namespace Leads

variable {lead : Char → Prop} {words : String} {marks : List String}

theorem imp {lead' : Char → Prop} (leads : Leads lead words) (implies : ∀ char, lead char → lead' char) :
    Leads lead' words := by
  obtain ⟨char, first, isLead⟩ := leads
  exact ⟨char, first, implies char isLead⟩

theorem of_all (nonempty : words ≠ "") (all : ∀ char ∈ words.toList, lead char) : Leads lead words := by
  obtain ⟨char, rest, same⟩ := List.exists_cons_of_ne_nil (mt String.toList_eq_nil_iff.mp nonempty)
  exact ⟨char, same ▸ rfl, all char (same ▸ List.mem_cons_self)⟩

theorem append (leads : Leads lead words) (more : String) : Leads lead (words ++ more) := by
  obtain ⟨char, first, isLead⟩ := leads
  exact ⟨char, String.toList_append ▸ List.mem_head?_append_of_mem_head? first, isLead⟩

theorem not_opens (leads : Leads lead words) (worded : "" ∉ marks)
    (others : ∀ mark ∈ marks, ∀ char ∈ mark.toList.head?, ¬ lead char) (rest : List Char) :
    ¬ Opens marks (words.toList ++ rest) := by
  intro opens
  obtain ⟨char, first, isLead⟩ := leads
  obtain ⟨own, isFirst, mark, member, starts⟩ := opens.exists_head worded
  have same := Option.mem_unique (List.mem_head?_append_of_mem_head? first) isFirst
  exact others mark member own starts (same ▸ isLead)

end Leads

variable {α β : Type}

/-- The texts of the items, with a mark between any two. -/
def separated (mark : String) (text : α → String) (items : List α) : String := mark.intercalate (items.map text)

/-- The texts of the items, each behind a mark. -/
def marked (mark : String) (text : α → String) (items : List α) : String :=
  String.join (items.map fun item => mark ++ text item)

/-- A text behind a mark, unless there are no items. -/
def optional (mark : String) (text : List α → String) (items : List α) : String :=
  if items = [] then "" else mark ++ text items

def Legible (text : α → String) (plain : α → Prop) (marks : List String) : Prop :=
  ∀ a b rest rest', plain a → plain b → Opens marks rest → Opens marks rest' →
    (text a).toList ++ rest = (text b).toList ++ rest' → a = b ∧ rest = rest'

namespace Legible

variable {text : α → String} {text' : β → String} {plain other : α → Prop} {plain' : β → Prop}
  {marks marks' : List String} {opening closing mark : String}

theorem injOn (legible : Legible text plain marks) (inhabited : marks ≠ []) {a b : α} (here : plain a)
    (there : plain b) (same : text a = text b) : a = b := by
  obtain ⟨mark, member⟩ := List.exists_mem_of_ne_nil _ inhabited
  have opens : Opens marks mark.toList := ⟨mark, member, List.prefix_rfl⟩
  exact (legible a b _ _ here there opens opens (by rw [same])).1

theorem map_injOn (legible : Legible text plain marks) (inhabited : marks ≠ []) {items others : List α}
    (here : ∀ a ∈ items, plain a) (there : ∀ a ∈ others, plain a) (same : items.map text = others.map text) :
    items = others := by
  induction items generalizing others with
  | nil => exact (List.map_eq_nil_iff.mp same.symm).symm
  | cons item items ih =>
    obtain ⟨other, rest, rfl, first, further⟩ := List.map_eq_cons_iff.mp same.symm
    obtain ⟨plain, each⟩ := List.forall_mem_cons.mp here
    obtain ⟨plain', each'⟩ := List.forall_mem_cons.mp there
    rw [legible.injOn inhabited plain plain' first.symm, ih each each' further.symm]

theorem mono (legible : Legible text plain marks) (longer : Extends marks' marks) : Legible text plain marks' :=
  fun a b rest rest' here there opens opens' =>
    legible a b rest rest' here there (opens.mono longer) (opens'.mono longer)

theorem of_imp (legible : Legible text plain marks) (fewer : ∀ a, other a → plain a) : Legible text other marks :=
  fun a b rest rest' here there => legible a b rest rest' (fewer a here) (fewer b there)

theorem congr {written : α → String} (legible : Legible text plain marks) (same : ∀ a, plain a → text a = written a) :
    Legible written plain marks := by
  intro a b rest rest' here there
  rw [← same a here, ← same b there]
  exact legible a b rest rest' here there

theorem word (inside : Char → Prop) (worded : "" ∉ marks)
    (stops : ∀ mark ∈ marks, ∀ char ∈ mark.toList.head?, ¬ inside char) :
    Legible id (fun word => ∀ char ∈ word.toList, inside char) marks := by
  have ends {rest : List Char} (opens : Opens marks rest) : ∀ char ∈ rest.head?, ¬ inside char := by
    intro char first
    obtain ⟨own, isFirst, mark, member, starts⟩ := opens.exists_head worded
    exact Option.mem_unique first isFirst ▸ stops mark member own starts
  intro a b rest rest' here there opens opens' same
  obtain ⟨words, rests⟩ := word_append_inj inside here there (ends opens) (ends opens') same
  exact ⟨String.toList_inj.mp words, rests⟩

theorem comap (legible : Legible text plain marks) {item : β → α} (kept : ∀ b, plain' b → plain (item b))
    (injective : ∀ a b, plain' a → plain' b → item a = item b → a = b) :
    Legible (fun b => text (item b)) plain' marks := by
  intro a b rest rest' here there opens opens' same
  obtain ⟨items, rests⟩ := legible _ _ rest rest' (kept a here) (kept b there) opens opens' same
  exact ⟨injective a b here there items, rests⟩

theorem image (build : β → α) (legible : Legible (fun b => text (build b)) plain' marks) :
    Legible text (fun a => ∃ b, plain' b ∧ build b = a) marks := by
  intro a b rest rest' here there opens opens' same
  obtain ⟨item, isPlain, rfl⟩ := here
  obtain ⟨item', isPlain', rfl⟩ := there
  obtain ⟨rfl, rests⟩ := legible item item' rest rest' isPlain isPlain' opens opens' same
  exact ⟨rfl, rests⟩

theorem single (text : α → String) (item : α) (marks : List String) : Legible text (· = item) marks := by
  intro a b rest rest' here there _ _ same
  subst here there
  exact ⟨rfl, List.append_cancel_left same⟩

theorem or (legible : Legible text plain marks) (legible' : Legible text other marks)
    (apart : ∀ a b rest rest', plain a → other b → Opens marks rest → Opens marks rest' →
      (text a).toList ++ rest ≠ (text b).toList ++ rest') :
    Legible text (fun a => plain a ∨ other a) marks := by
  intro a b rest rest' here there opens opens' same
  rcases here with here | here <;> rcases there with there | there
  · exact legible a b rest rest' here there opens opens' same
  · exact (apart a b rest rest' here there opens opens' same).elim
  · exact (apart b a rest' rest there here opens' opens same.symm).elim
  · exact legible' a b rest rest' here there opens opens' same

/-- Items are legible together if their texts start apart. -/
theorem or_of_leads (legible : Legible text plain marks) (legible' : Legible text other marks) (lead : Char → Prop)
    (leads : ∀ a, plain a → Leads lead (text a)) (leads' : ∀ b, other b → Leads (¬ lead ·) (text b)) :
    Legible text (fun a => plain a ∨ other a) marks := by
  refine legible.or legible' fun a b rest rest' here there _ _ same => ?_
  obtain ⟨char, first, isLead⟩ := leads a here
  obtain ⟨char', first', isOther⟩ := leads' b there
  have first := List.mem_head?_append_of_mem_head? (t := rest) first
  have first' := List.mem_head?_append_of_mem_head? (t := rest') first'
  rw [same] at first
  exact isOther (Option.mem_unique first first' ▸ isLead)

/-- Items are legible with one that has no text, if their own cannot be taken for what follows. -/
theorem of_blank (empty : α) (legible : Legible text (fun a => plain a ∧ a ≠ empty) marks) (blank : text empty = "")
    (starts : ∀ a rest, plain a → a ≠ empty → ¬ Opens marks ((text a).toList ++ rest)) :
    Legible text plain marks := by
  refine ((single text empty marks).or legible ?_).of_imp fun a here => ?_
  · intro a b rest rest' same there opens _ texts
    subst same
    rw [blank, String.toList_empty, List.nil_append] at texts
    exact starts b rest' there.1 there.2 (texts ▸ opens)
  · exact (eq_or_ne a empty).imp_right fun differs => ⟨here, differs⟩

theorem append (legible : Legible text plain marks) (legible' : Legible text' plain' marks')
    (goesOn : ∀ b rest, plain' b → Opens marks' rest → Opens marks ((text' b).toList ++ rest)) :
    Legible (fun pair : α × β => text pair.1 ++ text' pair.2) (fun pair => plain pair.1 ∧ plain' pair.2) marks' := by
  intro a b rest rest' here there opens opens' same
  simp only [String.toList_append, List.append_assoc] at same
  obtain ⟨firsts, same⟩ := legible _ _ _ _ here.1 there.1 (goesOn _ _ here.2 opens) (goesOn _ _ there.2 opens') same
  obtain ⟨seconds, rests⟩ := legible' _ _ _ _ here.2 there.2 opens opens' same
  exact ⟨Prod.ext firsts seconds, rests⟩

theorem after (legible : Legible text plain marks) (opening : String) :
    Legible (fun a => opening ++ text a) plain marks := by
  intro a b rest rest' here there opens opens' same
  simp only [String.toList_append, List.append_assoc] at same
  exact legible a b rest rest' here there opens opens' (List.append_cancel_left same)

theorem before (legible : Legible text plain [closing]) (marks : List String) :
    Legible (fun a => text a ++ closing) plain marks := by
  intro a b rest rest' here there _ _ same
  simp only [String.toList_append, List.append_assoc] at same
  have closed := List.mem_singleton_self closing
  obtain ⟨items, rests⟩ := legible a b _ _ here there (.append closed rest) (.append closed rest') same
  exact ⟨items, List.append_cancel_left rests⟩

theorem toList_marked_cons (mark : String) (text : α → String) (item : α) (items : List α) :
    (marked mark text (item :: items)).toList =
      mark.toList ++ ((text item).toList ++ (marked mark text items).toList) := by
  simp [marked]

theorem separated_cons (mark : String) (text : α → String) (first : α) (items : List α) :
    separated mark text (first :: items) = text first ++ marked mark text items := by
  apply String.toList_inj.mp
  unfold separated
  induction items generalizing first with
  | nil => simp [marked]
  | cons second items ih =>
    simp only [List.map_cons, String.toList_intercalate, List.intercalate_cons_cons, String.toList_append,
      toList_marked_cons, List.append_assoc] at *
    rw [ih]

theorem opens_marked (items : List α) {rest : List Char} (opens : Opens marks rest) :
    Opens (mark :: marks) ((marked mark text items).toList ++ rest) := by
  cases items with
  | nil => exact opens.cons
  | cons item items =>
    rw [toList_marked_cons, List.append_assoc]
    exact .append List.mem_cons_self _

theorem not_opens_mark (unlike : Unlike [mark] marks) (rest : List Char) : ¬ Opens marks (mark.toList ++ rest) :=
  fun opens => (Opens.append (List.mem_singleton_self mark) rest).absurd opens unlike

theorem marked_apart (unlike : Unlike [mark] marks) {item : α} {items : List α} {rest rest' : List Char}
    (opens : Opens marks rest) : rest ≠ (marked mark text (item :: items)).toList ++ rest' := by
  rintro rfl
  rw [toList_marked_cons, List.append_assoc] at opens
  exact not_opens_mark unlike _ opens

theorem many (legible : Legible text plain (mark :: marks)) (unlike : Unlike [mark] marks) :
    Legible (marked mark text) (fun items => ∀ a ∈ items, plain a) marks := by
  intro items
  induction items with
  | nil =>
    intro items' rest rest' _ _ opens _ same
    cases items' with
    | nil => exact ⟨rfl, same⟩
    | cons item items' => exact (marked_apart unlike opens same).elim
  | cons first items ih =>
    intro items' rest rest' here there opens opens' same
    cases items' with
    | nil => exact (marked_apart unlike opens' same.symm).elim
    | cons first' items' =>
      simp only [toList_marked_cons, List.append_assoc] at same
      obtain ⟨rfl, further⟩ := legible _ _ _ _ (here _ List.mem_cons_self) (there _ List.mem_cons_self)
        (opens_marked items opens) (opens_marked items' opens') (List.append_cancel_left same)
      obtain ⟨rfl, rests⟩ := ih items' rest rest' (fun a member => here a (List.mem_cons_of_mem _ member))
        (fun a member => there a (List.mem_cons_of_mem _ member)) opens opens' further
      exact ⟨rfl, rests⟩

/-- A list is legible if its items are, up to what parts them or ends the list. -/
theorem list (legible : Legible text plain (mark :: marks)) (unlike : Unlike [mark] marks)
    (starts : ∀ a rest, plain a → ¬ Opens marks ((text a).toList ++ rest)) :
    Legible (separated mark text) (fun items => ∀ a ∈ items, plain a) marks := by
  have built : Legible (fun pair : α × List α => separated mark text (pair.1 :: pair.2))
      (fun pair => plain pair.1 ∧ ∀ a ∈ pair.2, plain a) marks := by
    simp only [separated_cons]
    exact legible.append (legible.many unlike) fun items rest _ => opens_marked items
  refine of_blank [] ((image (fun pair : α × List α => pair.1 :: pair.2) built).of_imp fun items here => ?_) rfl
    fun items rest each inhabited => ?_
  · obtain ⟨first, others, rfl⟩ := List.exists_cons_of_ne_nil here.2
    exact ⟨(first, others), List.forall_mem_cons.mp here.1, rfl⟩
  · obtain ⟨first, others, rfl⟩ := List.exists_cons_of_ne_nil inhabited
    rw [separated_cons, String.toList_append, List.append_assoc]
    exact starts first _ (each first List.mem_cons_self)

theorem optional_of_ne {text : List α → String} {items : List α} (inhabited : items ≠ []) :
    optional mark text items = mark ++ text items := if_neg inhabited

theorem optional {text : List α → String} {plain : List α → Prop} (legible : Legible text plain marks)
    (unlike : Unlike [mark] marks) : Legible (GridPuzzle.optional mark text) plain marks := by
  refine of_blank [] ?_ rfl fun items rest _ inhabited => ?_
  · refine ((legible.of_imp fun _ => And.left).after mark).congr fun items here => ?_
    exact (optional_of_ne here.2).symm
  · rw [optional_of_ne inhabited, String.toList_append, List.append_assoc]
    exact not_opens_mark unlike _

theorem opens_optional (text : List α → String) (items : List α) {rest : List Char} (opens : Opens marks rest) :
    Opens (mark :: marks) ((GridPuzzle.optional mark text items).toList ++ rest) := by
  by_cases empty : items = []
  · subst empty
    exact opens.cons
  · rw [optional_of_ne empty, String.toList_append, List.append_assoc]
    exact .append List.mem_cons_self _

end Legible

theorem splitOn_joined {lines : List String} (whole : ∀ line ∈ lines, '\n' ∉ line.toList) :
    (String.join (lines.map (· ++ "\n"))).toList.splitOn '\n' = lines.map String.toList ++ [[]] := by
  rw [List.splitOn_eq_splitOnP]
  induction lines with
  | nil => rfl
  | cons line rest ih =>
    obtain ⟨here, others⟩ := List.forall_mem_cons.mp whole
    have apart : ∀ char ∈ line.toList, (char == '\n') = false :=
      fun char member => beq_eq_false_iff_ne.mpr fun same => here (same ▸ member)
    have first : (String.join ((line :: rest).map (· ++ "\n"))).toList =
        line.toList ++ '\n' :: (String.join (rest.map (· ++ "\n"))).toList := by simp
    rw [first, List.splitOnP_append_cons_of_forall_mem apart _ rfl, ih others]
    rfl

end GridPuzzle
