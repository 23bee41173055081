import Mathlib.Data.List.Basic
import Mathlib.Logic.ExistsUnique
import GridPuzzle.Rules.Meaning

/-!
Models of programs. A fact of a model is given, stated or the head of a rule whose body holds, and a
property that every rule passes on holds of all facts. A world where just such facts hold is a model if each
rests on facts of lower rank. A program whose negations and aggregates only look at relations of lower rank
has exactly one model.
-/
namespace GridPuzzle

def Test.relations : Test → List String
  | .holds atom => [atom.relation]
  | .fails atom => [atom.relation]
  | .compare _ _ _ => []

/-- The relations whose facts decide whether the literal holds. -/
def Literal.relations : Literal → List String
  | .test single => single.relations
  | .extremum _ _ elements => elements.flatMap fun element => element.conditions.flatMap Test.relations
  | .count element _ _ => element.conditions.flatMap Test.relations
  | .verbatim _ => []

def World.AgreeOn (first second : World) (relation : String) : Prop :=
  ∀ fact : Fact, fact.relation = relation → (first fact ↔ second fact)

private theorem test_agree {first second : World} {single : Test}
    (agree : ∀ relation ∈ single.relations, first.AgreeOn second relation) (binding : Binding) :
    single.Holds first binding ↔ single.Holds second binding := by
  cases single with
  | holds atom =>
    have same := agree atom.relation (by simp [Test.relations])
    exact exists_congr fun fact => and_congr_right fun denoted => same fact denoted.1
  | fails atom =>
    have same := agree atom.relation (by simp [Test.relations])
    exact forall_congr' fun fact => imp_congr_right fun denoted => not_congr (same fact denoted.1)
  | compare comparator left right => exact Iff.rfl

private theorem yields_agree {first second : World} {element : Element}
    (agree : ∀ relation ∈ element.conditions.flatMap Test.relations, first.AgreeOn second relation)
    (outer : List String) (binding : Binding) (tuple : List Value) :
    element.Yields first outer binding tuple ↔ element.Yields second outer binding tuple := by
  refine exists_congr fun inner => and_congr_right fun _ => and_congr_left fun _ => ?_
  refine forall_congr' fun condition => forall_congr' fun member => test_agree ?_ inner
  intro relation looked
  exact agree relation (List.mem_flatMap.mpr ⟨condition, member, looked⟩)

theorem Literal.holds_agree {first second : World} {literal : Literal}
    (agree : ∀ relation ∈ literal.relations, first.AgreeOn second relation)
    (outer : List String) (binding : Binding) :
    literal.Holds first outer binding ↔ literal.Holds second outer binding := by
  cases literal with
  | test single => exact test_agree agree binding
  | extremum targets which elements =>
    have same : (fun tuple => ∃ element ∈ elements, element.Yields first outer binding tuple) =
        (fun tuple => ∃ element ∈ elements, element.Yields second outer binding tuple) := by
      funext tuple
      refine propext (exists_congr fun element => and_congr_right fun member => ?_)
      refine yields_agree ?_ outer binding tuple
      intro relation looked
      exact agree relation (List.mem_flatMap.mpr ⟨element, member, looked⟩)
    simp only [Literal.Holds, same]
  | count element comparator bound =>
    refine exists_congr fun tuples => and_congr_right fun _ => and_congr_left fun _ => ?_
    exact forall_congr' fun tuple => iff_congr Iff.rfl (yields_agree agree outer binding tuple)
  | verbatim words => exact Iff.rfl

namespace Program

variable {program : Program} {given world : World}

def ruleScope (head : Atom) (body : List Literal) : List String :=
  head.variables ++ body.flatMap Literal.outer

/-- A fact of a model has a reason, and what has a reason is a fact of the model. -/
theorem Model.iff_supported (model : program.Model given world) (fact : Fact) :
    world fact ↔ given fact ∨
      (∃ atom, .fact atom ∈ program.statements ∧ ∃ binding, atom.Denotes binding fact) ∨
      ∃ head body, .rule head body ∈ program.statements ∧ ∃ binding, head.Denotes binding fact ∧
        ∀ literal ∈ body, literal.Holds world (ruleScope head body) binding := by
  constructor
  · intro holds
    rcases (model fact).mp holds with _ | ⟨atom, statement, binding, _, denoted⟩ |
      ⟨head, body, statement, binding, premise, matched, derived, others, _, denoted⟩
    · left; assumption
    · exact .inr (.inl ⟨atom, statement, binding, denoted⟩)
    · refine .inr (.inr ⟨head, body, statement, binding, denoted, ?_⟩)
      intro literal member
      by_cases positive : ∃ atom, literal = .holds atom
      · obtain ⟨atom, rfl⟩ := positive
        exact ⟨premise atom, matched atom member, (model _).mpr (derived atom member)⟩
      · exact others literal member fun atom same => positive ⟨atom, same⟩
  · intro reason
    apply (model fact).mpr
    rcases reason with holds | ⟨atom, statement, binding, denoted⟩ |
      ⟨head, body, statement, binding, denoted, holds⟩
    · exact .given fact holds
    · exact .stated atom statement binding fact denoted
    · have met : ∀ atom, .holds atom ∈ body → ∃ fact, atom.Denotes binding fact ∧ world fact :=
        fun atom member => holds (.holds atom) member
      have : Nonempty Fact := ⟨fact⟩
      choose! premise matched inWorld using met
      exact .rule head body statement binding premise matched
        (fun atom member => (model _).mp (inWorld atom member))
        (fun literal member _ => holds literal member) fact denoted

/-- The body of a constraint holds under some binding. -/
def Breaks (world : World) (body : List Literal) : Prop :=
  ∃ binding, ∀ literal ∈ body, literal.Holds world (body.flatMap Literal.outer) binding

def Defines (program : Program) (relation : String) : Prop :=
  (∃ atom, .fact atom ∈ program.statements ∧ atom.relation = relation) ∨
    ∃ head body, .rule head body ∈ program.statements ∧ head.relation = relation

/-- What the statements state or derive is of some of the relations. -/
def Within (relations : List String) (statements : List Statement) : Prop :=
  ∀ statement ∈ statements, match statement with
    | .fact atom => atom.relation ∈ relations
    | .rule head _ => head.relation ∈ relations
    | .constraint _ => True
    | .choice _ _ _ => True
    | .directive _ => True

section Within

variable {relations : List String} {atom head : Atom} {body : List Literal} {statements : List Statement} {α : Type}
  {items : List α}

theorem Within.mem_of_defines {relation : String} (within : Within relations program.statements)
    (defines : program.Defines relation) : relation ∈ relations := by
  rcases defines with ⟨atom, statement, rfl⟩ | ⟨head, body, statement, rfl⟩
  · exact within _ statement
  · exact within _ statement

@[simp] theorem within_nil : Within relations [] := List.forall_mem_nil _

@[simp] theorem within_fact : Within relations (.fact atom :: statements) ↔
    atom.relation ∈ relations ∧ Within relations statements :=
  List.forall_mem_cons

@[simp] theorem within_rule : Within relations (.rule head body :: statements) ↔
    head.relation ∈ relations ∧ Within relations statements :=
  List.forall_mem_cons

@[simp] theorem within_constraint : Within relations (.constraint body :: statements) ↔
    Within relations statements :=
  List.forall_mem_cons.trans (and_iff_right trivial)

@[simp] theorem within_append {others : List Statement} : Within relations (statements ++ others) ↔
    Within relations statements ∧ Within relations others :=
  List.forall_mem_append

@[simp] theorem within_map {make : α → Statement} : Within relations (items.map make) ↔
    ∀ item ∈ items, Within relations [make item] := by
  simp only [Within, List.forall_mem_map, List.forall_mem_singleton]

@[simp] theorem within_flatMap {make : α → List Statement} : Within relations (items.flatMap make) ↔
    ∀ item ∈ items, Within relations (make item) :=
  List.forall_mem_flatMap

end Within

theorem Model.iff_given (model : program.Model given world) {fact : Fact}
    (undefined : ¬ program.Defines fact.relation) : world fact ↔ given fact := by
  refine ⟨fun holds => ?_, fun holds => (model.iff_supported fact).mpr (.inl holds)⟩
  rcases (model.iff_supported fact).mp holds with isGiven | stated | derived
  · exact isGiven
  · obtain ⟨atom, statement, binding, denoted⟩ := stated
    exact absurd (.inl ⟨atom, statement, denoted.1.symm⟩) undefined
  · obtain ⟨head, body, statement, binding, denoted, _⟩ := derived
    exact absurd (.inr ⟨head, body, statement, denoted.1.symm⟩) undefined

/-- A world where just what has a reason holds is a model if every fact rests on facts of lower rank. -/
theorem Model.of_supported (rank : Fact → Nat)
    (supported : ∀ fact, world fact ↔ given fact ∨
      (∃ atom, .fact atom ∈ program.statements ∧ ∃ binding, atom.Denotes binding fact) ∨
      ∃ head body, .rule head body ∈ program.statements ∧ ∃ binding, head.Denotes binding fact ∧
        ∀ literal ∈ body, literal.Holds world (ruleScope head body) binding)
    (lower : ∀ head body, .rule head body ∈ program.statements → ∀ binding fact, head.Denotes binding fact →
      (∀ literal ∈ body, literal.Holds world (ruleScope head body) binding) → ∀ atom, .holds atom ∈ body →
        ∃ premise, atom.Denotes binding premise ∧ world premise ∧ rank premise < rank fact) :
    program.Model given world := by
  intro fact
  constructor
  · intro holds
    induction bound : rank fact using Nat.strongRecOn generalizing fact with
    | ind bound ih =>
      rcases (supported fact).mp holds with isGiven | ⟨atom, statement, binding, denoted⟩ |
        ⟨head, body, statement, binding, denoted, met⟩
      · exact .given fact isGiven
      · exact .stated atom statement binding fact denoted
      · have : Nonempty Fact := ⟨fact⟩
        choose! premise matched inWorld less using lower head body statement binding fact denoted met
        refine .rule head body statement binding premise matched (fun atom member => ?_)
          (fun literal member _ => met literal member) fact denoted
        exact ih _ (bound ▸ less atom member) _ (inWorld atom member) rfl
  · intro derived
    induction derived with
    | given fact isGiven => exact (supported fact).mpr (.inl isGiven)
    | stated atom statement binding fact denoted =>
      exact (supported fact).mpr (.inr (.inl ⟨atom, statement, binding, denoted⟩))
    | rule head body statement binding premise matched derived others fact denoted ih =>
      refine (supported fact).mpr (.inr (.inr ⟨head, body, statement, binding, denoted, fun literal member => ?_⟩))
      by_cases positive : ∃ atom, literal = .holds atom
      · obtain ⟨atom, rfl⟩ := positive
        exact ⟨premise atom, matched atom member, ih atom member⟩
      · exact others literal member fun atom same => positive ⟨atom, same⟩

/-- What holds of the given and the stated facts, and passes from the positive tests of every rule to
its head, holds of all facts of a model. -/
theorem Model.induction (model : program.Model given world) (property : Fact → Prop)
    (base : ∀ fact, given fact → property fact)
    (stated : ∀ atom, .fact atom ∈ program.statements → ∀ binding fact, atom.Denotes binding fact →
      property fact)
    (rule : ∀ head body, .rule head body ∈ program.statements → ∀ binding,
      (∀ literal ∈ body, literal.Holds world (ruleScope head body) binding) →
      (∀ atom, .holds atom ∈ body → ∃ fact, atom.Denotes binding fact ∧ world fact ∧ property fact) →
      ∀ fact, head.Denotes binding fact → property fact)
    (fact : Fact) (holds : world fact) : property fact := by
  have derived := (model fact).mp holds
  clear holds
  induction derived with
  | given fact holds => exact base fact holds
  | stated atom statement binding fact denoted => exact stated atom statement binding fact denoted
  | rule head body statement binding premise matched derived others fact denoted ih =>
    refine rule head body statement binding ?_ ?_ fact denoted
    · intro literal member
      by_cases positive : ∃ atom, literal = .holds atom
      · obtain ⟨atom, rfl⟩ := positive
        exact ⟨premise atom, matched atom member, (model _).mpr (derived atom member)⟩
      · exact others literal member fun atom same => positive ⟨atom, same⟩
    · intro atom member
      exact ⟨premise atom, matched atom member, (model _).mpr (derived atom member), ih atom member⟩

/-- The rules of a program never look down on a relation of higher rank, and look at one of equal rank
only through positive tests. -/
structure Stratified (program : Program) (rank : String → Nat) : Prop where
  positive : ∀ head body, .rule head body ∈ program.statements → ∀ atom, .holds atom ∈ body →
    rank atom.relation ≤ rank head.relation
  others : ∀ head body, .rule head body ∈ program.statements → ∀ literal ∈ body,
    (∀ atom, literal ≠ .holds atom) → ∀ relation ∈ literal.relations, rank relation < rank head.relation

def AgreeBelow (rank : String → Nat) (bound : Nat) (first second : World) : Prop :=
  ∀ fact : Fact, rank fact.relation < bound → (first fact ↔ second fact)

variable {rank : String → Nat}

private theorem derived_of_agree (stratified : program.Stratified rank) {bound : Nat}
    {first second : World} (agree : AgreeBelow rank bound first second) (fact : Fact)
    (derived : Derived program given first fact) (low : rank fact.relation ≤ bound) :
    Derived program given second fact := by
  induction derived with
  | given fact holds => exact .given fact holds
  | stated atom statement binding fact denoted => exact .stated atom statement binding fact denoted
  | rule head body statement binding premise matched derived others fact denoted ih =>
    rw [denoted.1] at low
    refine .rule head body statement binding premise matched ?_ ?_ fact denoted
    · intro atom member
      apply ih atom member
      rw [(matched atom member).1]
      exact Nat.le_trans (stratified.positive head body statement atom member) low
    · intro literal member negative
      refine (Literal.holds_agree ?_ _ binding).mp (others literal member negative)
      intro relation looked fact same
      apply agree fact
      rw [same]
      exact Nat.lt_of_lt_of_le
        (stratified.others head body statement literal member negative relation looked) low

private theorem derived_agree (stratified : program.Stratified rank) {bound : Nat}
    {first second : World} (agree : AgreeBelow rank bound first second) :
    AgreeBelow rank (bound + 1) (Derived program given first) (Derived program given second) := by
  intro fact low
  have low : rank fact.relation ≤ bound := Nat.lt_succ_iff.mp low
  have back : AgreeBelow rank bound second first := fun fact low => (agree fact low).symm
  exact ⟨fun derived => derived_of_agree stratified agree fact derived low,
    fun derived => derived_of_agree stratified back fact derived low⟩

/-- What a program derives when this is done over and over, each time assuming what came before. -/
def stage (program : Program) (given : World) : Nat → World
  | 0 => given
  | bound + 1 => Derived program given (program.stage given bound)

private theorem stage_agree (stratified : program.Stratified rank) (bound more : Nat) :
    AgreeBelow rank bound (program.stage given (bound + more)) (program.stage given bound) := by
  induction bound with
  | zero => intro fact low; omega
  | succ bound ih =>
    rw [Nat.succ_add]
    exact derived_agree stratified ih

/-- Negation that only looks down the ranks leaves a single model. -/
theorem Stratified.existsUnique_model (stratified : program.Stratified rank) (given : World) :
    ∃! world, program.Model given world := by
  refine ⟨fun fact => program.stage given (rank fact.relation + 1) fact, ?_, ?_⟩
  · intro fact
    refine derived_agree stratified ?_ fact (Nat.lt_succ_self _)
    intro lower low
    obtain ⟨more, split⟩ := Nat.exists_eq_add_of_le (Nat.succ_le_of_lt low)
    rw [split]
    exact stage_agree stratified _ more lower (Nat.lt_succ_self _)
  · intro world model
    -- by rank: two worlds that agree below a rank derive the same facts of that rank
    have agree : ∀ bound, AgreeBelow rank bound world (program.stage given bound) := by
      intro bound
      induction bound with
      | zero => intro fact low; omega
      | succ bound ih =>
        intro fact low
        exact (model fact).trans (derived_agree stratified ih fact low)
    funext fact
    exact propext (agree _ fact (Nat.lt_succ_self _))

theorem existsUnique_model_of_lower (lower : List String) (undefined : ∀ relation ∈ lower, ¬ program.Defines relation)
    (others : ∀ head body, .rule head body ∈ program.statements → ∀ literal ∈ body,
      (∀ atom, literal ≠ .holds atom) → ∀ relation ∈ literal.relations, relation ∈ lower)
    (given : World) : ∃! world, program.Model given world := by
  have high : ∀ head body, .rule head body ∈ program.statements → head.relation ∉ lower :=
    fun head body statement low => undefined _ low (.inr ⟨head, body, statement, rfl⟩)
  have stratified : program.Stratified fun relation => if relation ∈ lower then 0 else 1 := by
    refine ⟨?_, ?_⟩
    · intro head body statement atom member
      rw [if_neg (high head body statement)]
      split <;> omega
    · intro head body statement literal member negative relation looked
      rw [if_neg (high head body statement), if_pos (others head body statement literal member negative
        relation looked)]
      exact Nat.zero_lt_one
  exact stratified.existsUnique_model given

end Program

end GridPuzzle
