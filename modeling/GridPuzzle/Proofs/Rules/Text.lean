import GridPuzzle.Proofs.Label
import GridPuzzle.Proofs.Rules.Words
import GridPuzzle.Rules.Program

/-!
The text of programs. Where relations and variables are named as they should be and strings hold neither quotes nor
new lines, what is written is read back: programs with the same text are the same, and the lines of the text are the
statements.
-/
namespace GridPuzzle

namespace Atom

/-- The relation is named as colors are, and the arguments are plain terms. -/
@[mk_iff]
structure Plain (spelling : Spelling) (atom : Atom) : Prop where
  named : Color.isName atom.relation.toList = true
  args : ∀ term ∈ atom.args, term.Plain spelling

variable {spelling : Spelling} {atom : Atom}

def argsText (args : List Term) : String := separated ", " Term.text args ++ ")"

theorem text_eq (atom : Atom) : atom.text = atom.relation ++ optional "(" argsText atom.args := by
  unfold text optional
  split
  · exact String.append_empty.symm
  · simp only [argsText, separated, String.append_assoc]

theorem Plain.leads (plain : atom.Plain spelling) : Leads (fun char => char.isLower = true) atom.text := by
  have named := plain.named
  rw [text_eq]
  refine Leads.append ?_ _
  unfold Leads
  cases chars : atom.relation.toList with
  | nil => simp [chars, Color.isName] at named
  | cons first rest =>
    rw [chars, Color.isName, Bool.and_eq_true] at named
    exact ⟨first, rfl, named.1⟩

theorem legible (spelling : Spelling) : Legible text (Plain spelling) [".", ", ", " ", ":", ";"] := by
  have names : Legible id (fun name => Color.isName name.toList = true) ["(", ".", ", ", " ", ":", ";"] := by
    refine (Legible.word (fun char => char.isAlphanum = true ∨ char = '_') (by simp) (by simp)).of_imp ?_
    intro name named char
    exact Color.mem_of_isName named
  have args : Legible argsText (fun args => ∀ term ∈ args, term.Plain spelling) [".", ", ", " ", ":", ";"] := by
    refine ((Term.legible spelling).list (by decide) fun term rest plain => ?_).before _
    exact plain.leads.not_opens (by simp) (by simp) rest
  have parts := names.append (args.optional (by decide : Unlike ["("] _)) fun args rest _ opens =>
    Legible.opens_optional argsText args opens
  refine (Legible.image (fun pair : String × List Term => Atom.mk pair.1 pair.2)
    (parts.congr fun pair _ => ?_)).of_imp fun atom plain => ?_
  · exact (text_eq ⟨pair.1, pair.2⟩).symm
  · exact ⟨(atom.relation, atom.args), ⟨plain.named, plain.args⟩, rfl⟩

end Atom

namespace Literal

/-- The literal is a plain atom or the negation of one. -/
def Plain (spelling : Spelling) : Literal → Prop
  | .test (.holds atom) => atom.Plain spelling
  | .test (.fails atom) => atom.Plain spelling
  | _ => False

variable {spelling : Spelling} {literal : Literal}

theorem Plain.cases (plain : literal.Plain spelling) :
    (∃ atom : Atom, atom.Plain spelling ∧ holds atom = literal) ∨
      ∃ atom : Atom, atom.Plain spelling ∧ fails atom = literal := by
  match literal, plain with
  | .test (.holds atom), plain => exact .inl ⟨atom, plain, rfl⟩
  | .test (.fails atom), plain => exact .inr ⟨atom, plain, rfl⟩

theorem Plain.leads (plain : literal.Plain spelling) : Leads (fun char => char.isLower = true) literal.text := by
  rcases plain.cases with ⟨atom, own, rfl⟩ | ⟨atom, _, rfl⟩
  · exact own.leads
  · have negation : Leads (fun char => char.isLower = true) "not " := ⟨'n', rfl, by decide⟩
    exact negation.append atom.text

theorem legible (spelling : Spelling) : Legible text (Plain spelling) [", ", ".", ";", " \x7d"] := by
  have atoms := Atom.legible spelling
  have positive : Legible text (fun literal => ∃ atom : Atom, atom.Plain spelling ∧ holds atom = literal)
      [", ", ".", ";", " \x7d"] := Legible.image holds (atoms.mono (by decide))
  have negative : Legible text (fun literal => ∃ atom : Atom, atom.Plain spelling ∧ fails atom = literal)
      [", ", ".", ";", " \x7d"] := Legible.image fails ((atoms.mono (by decide)).after "not ")
  refine (positive.or negative ?_).of_imp fun literal => Plain.cases
  -- an atom may itself be called as the negation is, but then no other atom follows
  intro a b rest rest' here there opens _ same
  obtain ⟨atom, plain, rfl⟩ := here
  obtain ⟨atom', plain', rfl⟩ := there
  have negation : (Atom.mk "not" []).Plain spelling := ⟨by decide, nofun⟩
  have same : atom.text.toList ++ rest =
      (Atom.mk "not" []).text.toList ++ (" ".toList ++ (atom'.text.toList ++ rest')) := by
    rw [show (holds atom).text = atom.text from rfl, show (fails atom').text = "not " ++ atom'.text from rfl] at same
    rw [same, String.toList_append, List.append_assoc]
    rfl
  obtain ⟨_, rfl⟩ := atoms _ _ _ _ plain negation (opens.mono (by decide))
    ((Opens.append (List.mem_singleton_self " ") _).mono (by decide)) same
  have closed : Opens ["\x7d"] (atom'.text.toList ++ rest') := by
    obtain ⟨mark, member, starts⟩ := opens
    refine ⟨"\x7d", List.mem_singleton_self _, ?_⟩
    simp only [List.mem_cons, List.not_mem_nil, or_false] at member
    rcases member with rfl | rfl | rfl | rfl <;> simp_all [List.cons_prefix_cons]
  exact plain'.leads.not_opens (by simp) (by simp) rest' closed

theorem legible_list (spelling : Spelling) :
    Legible listText (fun literals => ∀ literal ∈ literals, literal.Plain spelling) [".", ";", " \x7d"] := by
  refine (legible spelling).list (by decide) fun literal rest plain => ?_
  exact plain.leads.not_opens (by simp) (by simp) rest

end Literal

namespace Choosable

@[mk_iff]
structure Plain (spelling : Spelling) (option : Choosable) : Prop where
  atom : option.atom.Plain spelling
  conditions : ∀ literal ∈ option.conditions, literal.Plain spelling

variable {spelling : Spelling} {option : Choosable}

theorem text_eq (option : Choosable) :
    option.text = option.atom.text ++ optional ": " Literal.listText option.conditions := by
  unfold text optional
  split
  · exact String.append_empty.symm
  · exact String.append_assoc

theorem Plain.leads (plain : option.Plain spelling) : Leads (fun char => char.isLower = true) option.text :=
  text_eq option ▸ plain.atom.leads.append _

theorem legible (spelling : Spelling) : Legible text (Plain spelling) ["; ", " \x7d"] := by
  have conditions := (Literal.legible_list spelling).mono (by decide : Extends ["; ", " \x7d"] _)
  have parts := ((Atom.legible spelling).mono (by decide : Extends [": ", "; ", " \x7d"] _)).append
    (conditions.optional (by decide : Unlike [": "] _)) fun own rest _ => Legible.opens_optional Literal.listText own
  refine (Legible.image (fun pair : Atom × List Literal => Choosable.mk pair.1 pair.2)
    (parts.congr fun pair _ => ?_)).of_imp fun option plain => ?_
  · exact (text_eq ⟨pair.1, pair.2⟩).symm
  · exact ⟨(option.atom, option.conditions), ⟨plain.atom, plain.conditions⟩, rfl⟩

end Choosable

namespace Statement

/-- The statement is no directive, and all its atoms are plain. -/
def Plain (spelling : Spelling) : Statement → Prop
  | .fact atom => atom.Plain spelling
  | .rule head body => head.Plain spelling ∧ ∀ literal ∈ body, literal.Plain spelling
  | .constraint body => ∀ literal ∈ body, literal.Plain spelling
  | .choice options _ body =>
    (∀ option ∈ options, option.Plain spelling) ∧ ∀ literal ∈ body, literal.Plain spelling
  | .directive _ => False

variable {spelling : Spelling} {statement : Statement}

def limitText : Option (Comparator × Int) → String
  | some (comparator, value) => " " ++ comparator.symbol ++ " " ++ value.repr
  | none => ""

theorem legible_limit : Legible limitText (fun _ => True) [" :- ", "."] := by
  have signs : Legible Comparator.symbol (fun _ => True) [" "] := by
    refine (Legible.word (· ≠ ' ') (by simp) (by simp)).comap (fun comparator _ => ?_) ?_
    · cases comparator <;> simp
    · intro a b _ _ same
      cases a <;> cases b <;> first | rfl | exact absurd same (by decide)
  have values : Legible Int.repr (fun _ => True) [" ", "."] := legible_int (by simp) (by simp)
  have bounds := (signs.append (values.after " ") fun value rest _ _ => ?_).after " "
  · refine Legible.of_blank none ?_ rfl fun bound rest _ bounded opens => ?_
    · refine (Legible.image some ((bounds.mono (by decide)).congr fun pair _ => ?_)).of_imp ?_
      · simp only [limitText, String.append_assoc]
      · intro bound bounded
        obtain ⟨pair, rfl⟩ := Option.ne_none_iff_exists'.mp bounded.2
        exact ⟨pair, ⟨trivial, trivial⟩, rfl⟩
    · obtain ⟨⟨comparator, value⟩, rfl⟩ := Option.ne_none_iff_exists'.mp bounded
      obtain ⟨mark, member, starts⟩ := opens
      rcases List.mem_pair.mp member with rfl | rfl <;> cases comparator <;>
        simp [limitText, Comparator.symbol, List.cons_prefix_cons] at starts
  · rw [String.toList_append, List.append_assoc]
    exact .append (List.mem_singleton_self " ") _

def bodyText (body : List Literal) : String := Literal.listText body ++ "."

theorem legible_body (spelling : Spelling) :
    Legible bodyText (fun body => ∀ literal ∈ body, literal.Plain spelling) [""] :=
  ((Literal.legible_list spelling).mono (by decide)).before [""]

theorem legible_fact (spelling : Spelling) :
    Legible text (fun statement => ∃ atom : Atom, atom.Plain spelling ∧ fact atom = statement) [""] :=
  Legible.image fact (((Atom.legible spelling).mono (by decide)).before [""])

theorem legible_rule (spelling : Spelling) : Legible text (fun statement => ∃ pair : Atom × List Literal,
    (pair.1.Plain spelling ∧ ∀ literal ∈ pair.2, literal.Plain spelling) ∧ rule pair.1 pair.2 = statement) [""] := by
  have atoms : Legible Atom.text (Atom.Plain spelling) [" :- "] := (Atom.legible spelling).mono (by decide)
  have parts := atoms.append ((legible_body spelling).after " :- ") fun body rest _ _ => ?_
  · refine Legible.image (fun pair : Atom × List Literal => rule pair.1 pair.2) (parts.congr fun pair _ => ?_)
    simp only [bodyText, text, String.append_assoc]
  · rw [String.toList_append, List.append_assoc]
    exact .append (List.mem_singleton_self " :- ") _

theorem legible_constraint (spelling : Spelling) : Legible text (fun statement => ∃ body : List Literal,
    (∀ literal ∈ body, literal.Plain spelling) ∧ constraint body = statement) [""] := by
  refine Legible.image constraint (((legible_body spelling).after ":- ").congr fun body _ => ?_)
  simp only [bodyText, text, String.append_assoc]

def optionsText (options : List Choosable) : String := "\x7b " ++ (separated "; " Choosable.text options ++ " \x7d")

def choiceBodyText (body : List Literal) : String := optional " :- " Literal.listText body ++ "."

theorem text_choice (options : List Choosable) (bound : Option (Comparator × Int)) (body : List Literal) :
    (choice options bound body).text = optionsText options ++ (limitText bound ++ choiceBodyText body) := by
  cases bound <;> simp only [text, optionsText, choiceBodyText, limitText, separated, optional, String.append_assoc]

theorem legible_choice (spelling : Spelling) : Legible text (fun statement =>
    ∃ parts : List Choosable × Option (Comparator × Int) × List Literal,
      ((∀ option ∈ parts.1, option.Plain spelling) ∧ True ∧ ∀ literal ∈ parts.2.2, literal.Plain spelling) ∧
        choice parts.1 parts.2.1 parts.2.2 = statement) [""] := by
  have options : Legible optionsText (fun options => ∀ option ∈ options, option.Plain spelling) [""] := by
    refine (((Choosable.legible spelling).list (by decide) fun option rest plain => ?_).before [""]).after "\x7b "
    exact plain.leads.not_opens (by simp) (by simp) rest
  have bodies := (Literal.legible_list spelling).mono (by decide : Extends ["."] _)
  have conditions : Legible choiceBodyText (fun body => ∀ literal ∈ body, literal.Plain spelling) [""] :=
    (bodies.optional (by decide)).before [""]
  have limited := legible_limit.append conditions fun body rest _ _ => ?_
  · have parts := options.append limited fun _ _ _ _ => .of_anywhere _
    refine Legible.image (fun parts : List Choosable × Option (Comparator × Int) × List Literal =>
      choice parts.1 parts.2.1 parts.2.2) (parts.congr fun parts _ => ?_)
    exact (text_choice parts.1 parts.2.1 parts.2.2).symm
  · rw [choiceBodyText, String.toList_append, List.append_assoc]
    exact Legible.opens_optional _ _ (.append (List.mem_singleton_self ".") rest)

theorem Plain.cases (plain : statement.Plain spelling) :
    ((∃ atom : Atom, atom.Plain spelling ∧ fact atom = statement) ∨ ∃ pair : Atom × List Literal,
      (pair.1.Plain spelling ∧ ∀ literal ∈ pair.2, literal.Plain spelling) ∧ rule pair.1 pair.2 = statement) ∨
    (∃ body : List Literal, (∀ literal ∈ body, literal.Plain spelling) ∧ constraint body = statement) ∨
    ∃ parts : List Choosable × Option (Comparator × Int) × List Literal,
      ((∀ option ∈ parts.1, option.Plain spelling) ∧ True ∧ ∀ literal ∈ parts.2.2, literal.Plain spelling) ∧
        choice parts.1 parts.2.1 parts.2.2 = statement := by
  cases statement with
  | fact atom => exact .inl (.inl ⟨atom, plain, rfl⟩)
  | rule head body => exact .inl (.inr ⟨(head, body), plain, rfl⟩)
  | constraint body => exact .inr (.inl ⟨body, plain, rfl⟩)
  | choice options bound body => exact .inr (.inr ⟨(options, bound, body), ⟨plain.1, trivial, plain.2⟩, rfl⟩)
  | directive words => exact plain.elim

theorem leads_constraint (body : List Literal) : Leads (· = ':') (constraint body).text := by
  have sign : Leads (· = ':') ":- " := ⟨':', rfl, rfl⟩
  exact (sign.append _).append _

theorem leads_choice (options : List Choosable) (bound : Option (Comparator × Int)) (body : List Literal) :
    Leads (· = '\x7b') (choice options bound body).text := by
  have bracket : Leads (· = '\x7b') "\x7b " := ⟨'\x7b', rfl, rfl⟩
  rw [text_choice]
  exact (bracket.append _).append _

theorem legible_headed (spelling : Spelling) : Legible text (fun statement =>
    (∃ atom : Atom, atom.Plain spelling ∧ fact atom = statement) ∨ ∃ pair : Atom × List Literal,
      (pair.1.Plain spelling ∧ ∀ literal ∈ pair.2, literal.Plain spelling) ∧ rule pair.1 pair.2 = statement) [""] := by
  refine (legible_fact spelling).or (legible_rule spelling) fun a b rest rest' here there _ _ same => ?_
  obtain ⟨atom, plain, rfl⟩ := here
  obtain ⟨⟨head, body⟩, both, rfl⟩ := there
  simp only [text, String.toList_append, List.append_assoc] at same
  -- a dot or an arrow ends the atom
  have goesOn {mark : String} (marks : Extends [mark] [".", ", ", " ", ":", ";"]) (rest : List Char) :
      Opens [".", ", ", " ", ":", ";"] (mark.toList ++ rest) :=
    (Opens.append (List.mem_singleton_self mark) rest).mono marks
  obtain ⟨_, apart⟩ := Atom.legible spelling _ _ _ _ plain both.1 (goesOn (by decide) _) (goesOn (by decide) _) same
  simp at apart

/-- A statement is read up to its last dot. -/
theorem legible (spelling : Spelling) : Legible text (Plain spelling) [""] := by
  have others := (legible_constraint spelling).or_of_leads (legible_choice spelling) (· = ':') ?_ ?_
  · refine ((legible_headed spelling).or_of_leads others (fun char => char.isLower = true) ?_ ?_).of_imp
      fun statement => Plain.cases
    · intro statement here
      rcases here with ⟨atom, plain, rfl⟩ | ⟨pair, both, rfl⟩
      · exact plain.leads.append _
      · exact ((both.1.leads.append _).append _).append _
    · intro statement here
      rcases here with ⟨body, _, rfl⟩ | ⟨parts, _, rfl⟩
      · exact (leads_constraint body).imp fun char => by rintro rfl; decide
      · exact (leads_choice _ _ _).imp fun char => by rintro rfl; decide
  · intro statement here
    obtain ⟨body, _, rfl⟩ := here
    exact leads_constraint body
  · intro statement here
    obtain ⟨parts, _, rfl⟩ := here
    exact (leads_choice _ _ _).imp fun char => by rintro rfl; decide

end Statement

def OneLine (words : String) : Prop := '\n' ∉ words.toList

instance (words : String) : Decidable (OneLine words) := inferInstanceAs (Decidable (_ ∉ _))

namespace OneLine

variable {α : Type} {first second mark : String}

theorem append (here : OneLine first) (there : OneLine second) : OneLine (first ++ second) := by
  rw [OneLine, String.toList_append, List.mem_append]
  exact not_or.mpr ⟨here, there⟩

theorem separated {text : α → String} {items : List α} (between : OneLine mark)
    (each : ∀ item ∈ items, OneLine (text item)) : OneLine (separated mark text items) := by
  cases items with
  | nil => exact List.not_mem_nil
  | cons first items =>
    obtain ⟨here, others⟩ := List.forall_mem_cons.mp each
    rw [Legible.separated_cons]
    refine here.append fun member => ?_
    rw [marked, String.toList_join, List.mem_flatMap] at member
    obtain ⟨words, listed, inside⟩ := member
    obtain ⟨item, inItems, rfl⟩ := List.mem_map.mp listed
    exact between.append (others item inItems) inside

theorem optional {text : List α → String} {items : List α} (before : OneLine mark) (own : OneLine (text items)) :
    OneLine (optional mark text items) := by
  unfold GridPuzzle.optional
  split
  · exact List.not_mem_nil
  · exact before.append own

end OneLine

section

variable {spelling : Spelling}

theorem oneLine_int (value : Int) : OneLine value.repr := fun member => absurd (mem_intRepr member) (by decide)

theorem Term.Plain.oneLine {term : Term} (plain : term.Plain spelling) : OneLine term.text := by
  rcases plain.cases with ⟨value, rfl⟩ | ⟨words, inside, rfl⟩ | symbolic
  · exact oneLine_int value
  · have quote : OneLine "\"" := by decide
    exact (quote.append fun member => (inside _ member).2 rfl).append quote
  · exact symbolic.isSymbol.notMem (by decide)

theorem Atom.Plain.oneLine {atom : Atom} (plain : atom.Plain spelling) : OneLine atom.text := by
  rw [Atom.text_eq]
  have name : OneLine atom.relation := fun member => absurd (Color.mem_of_isName plain.named member) (by decide)
  have args := OneLine.separated (by decide : OneLine ", ") fun term member => (plain.args term member).oneLine
  exact name.append (.optional (by decide) (args.append (by decide)))

theorem Literal.Plain.oneLine {literal : Literal} (plain : literal.Plain spelling) : OneLine literal.text := by
  rcases plain.cases with ⟨atom, own, rfl⟩ | ⟨atom, own, rfl⟩
  · exact own.oneLine
  · exact OneLine.append (by decide : OneLine "not ") own.oneLine

theorem Literal.oneLine_list {literals : List Literal} (plain : ∀ literal ∈ literals, literal.Plain spelling) :
    OneLine (Literal.listText literals) :=
  .separated (by decide) fun literal member => (plain literal member).oneLine

theorem Choosable.Plain.oneLine {option : Choosable} (plain : option.Plain spelling) : OneLine option.text := by
  rw [Choosable.text_eq]
  exact plain.atom.oneLine.append (.optional (by decide) (Literal.oneLine_list plain.conditions))

theorem Statement.Plain.oneLine {statement : Statement} (plain : statement.Plain spelling) :
    OneLine statement.text := by
  have dot : OneLine "." := by decide
  cases statement with
  | fact atom => exact Atom.Plain.oneLine plain |>.append dot
  | rule head body => exact ((plain.1.oneLine.append (by decide)).append (Literal.oneLine_list plain.2)).append dot
  | constraint body => exact (OneLine.append (by decide : OneLine ":- ") (Literal.oneLine_list plain)).append dot
  | choice options bound body =>
    have limit : OneLine (Statement.limitText bound) := by
      cases bound with
      | none => exact List.not_mem_nil
      | some pair =>
        have sign : OneLine pair.1.symbol := by cases pair.1 <;> decide
        exact ((OneLine.append (by decide : OneLine " ") sign).append (by decide)).append (oneLine_int pair.2)
    have chosen := OneLine.separated (by decide : OneLine "; ") fun option member => (plain.1 option member).oneLine
    have body := OneLine.optional (by decide : OneLine " :- ") (Literal.oneLine_list plain.2)
    rw [Statement.text_choice]
    exact (OneLine.append (by decide) (chosen.append (by decide))).append (limit.append (body.append dot))
  | directive words => exact plain.elim

end

namespace Program

variable {spelling : Spelling} {program other : Program}

def Plain (spelling : Spelling) (program : Program) : Prop :=
  ∀ statement ∈ program.statements, statement.Plain spelling

theorem splitOn_text (plain : program.Plain spelling) :
    program.text.toList.splitOn '\n' = (program.statements.map Statement.text).map String.toList ++ [[]] := by
  have joined : program.text = String.join ((program.statements.map Statement.text).map (· ++ "\n")) := by
    simp [text, Function.comp_def]
  rw [joined]
  refine splitOn_joined fun line member => ?_
  obtain ⟨statement, stated, rfl⟩ := List.mem_map.mp member
  exact (plain statement stated).oneLine

theorem text_append (program other : Program) : (program ++ other).text = program.text ++ other.text := by
  apply String.toList_inj.mp
  simp [text, statements_append]

theorem text_injOn (plain : program.Plain spelling) (plain' : other.Plain spelling)
    (same : program.text = other.text) : program = other := by
  have lines := splitOn_text plain
  rw [same, splitOn_text plain'] at lines
  have texts := (List.map_inj_right fun _ _ => String.toList_inj.mp).mp (List.append_cancel_right lines)
  have statements := (Statement.legible spelling).map_injOn (by simp) plain' plain texts
  cases program
  cases other
  exact congrArg mk statements.symm

theorem containsLine_iff {line : String} :
    program.containsLine line = true ↔ line ∈ program.statements.map Statement.text := by
  simp [containsLine]

/-- Of programs whose names and strings are plain, the text tells the program. It has one line for each of
the statements, which are the lines that the program has. The text of a program that goes on with another is the text
of the first one before that of the other. -/
theorem text_faithful (plain : program.Plain spelling) (plain' : other.Plain spelling) :
    (program.text = other.text → program = other) ∧
      (∃ lines : List String, program.text.toList.splitOn '\n' = lines.map String.toList ++ [[]] ∧
        lines.length = program.size ∧ ∀ line, program.containsLine line = true ↔ line ∈ lines) ∧
      (program ++ other).text = program.text ++ other.text :=
  ⟨text_injOn plain plain', ⟨_, splitOn_text plain, List.length_map _, fun _ => containsLine_iff⟩,
    text_append program other⟩

/-- A choice without a body, and a constraint that asks for an atom which is called as the negation is. -/
def trickyProgram : Program :=
  ⟨[.choice [⟨⟨"a", [.int (-3), .var "R" (-1)]⟩, [.fails ⟨"b", []⟩]⟩, ⟨⟨"b", []⟩, []⟩] (some (.le, -1)) [],
    .constraint [.holds ⟨"not", []⟩, .holds ⟨"a", [.anon, .str "x), b(y: z; :- ."]⟩]]⟩

theorem text_faithful_tricky : trickyProgram.Plain .parsed ∧
    Plain .parsed ⟨[.constraint [.fails ⟨"a", [.anon, .str "x"]⟩]]⟩ ∧
    trickyProgram.text ≠ text ⟨[.constraint [.fails ⟨"a", [.anon, .str "x"]⟩]]⟩ ∧
    ∃ lines : List String, trickyProgram.text.toList.splitOn '\n' = lines.map String.toList ++ [[]] ∧
      lines.length = 2 := by
  have plain : trickyProgram.Plain .parsed := by
    simp [trickyProgram, Plain, Statement.Plain, Choosable.plain_iff, Literal.Plain, Literal.fails, Literal.holds,
      Atom.plain_iff, Term.Plain, Term.Symbolic, Term.isVariable, Color.isName]
  have plain' : Plain .parsed ⟨[.constraint [.fails ⟨"a", [.anon, .str "x"]⟩]]⟩ := by
    simp [Plain, Statement.Plain, Literal.Plain, Literal.fails, Atom.plain_iff, Term.Plain, Term.Symbolic, Color.isName]
  obtain ⟨told, ⟨lines, split, count, _⟩, _⟩ := text_faithful plain plain'
  exact ⟨plain, plain', fun same => absurd (told same) (by decide), lines, split, count⟩

end Program

end GridPuzzle
