import GridPuzzle.Proofs.Rules.Model

/-!
Programs together. Constraints stay apart, and so do rules that look at given facts only: the facts of a common
model are those of the models that the programs have on their own.
-/
namespace GridPuzzle.Program

variable {program other first second : Program} {given world one two : World} {fact : Fact}

theorem violated_append : (first ++ second).Violated world ↔ first.Violated world ∨ second.Violated world := by
  simp only [Violated, statements_append, List.mem_append, or_and_right, exists_or]

theorem violated_constraint {body : List Literal} :
    (⟨[.constraint body]⟩ : Program).Violated world ↔ Breaks world body := by
  simp [Violated, Breaks]

theorem violated_constraints {bodies : List (List Literal)} :
    (⟨bodies.map .constraint⟩ : Program).Violated world ↔ ∃ body ∈ bodies, Breaks world body := by
  simp only [Violated, Breaks, List.mem_map, Statement.constraint.injEq, exists_eq_right]

theorem defines_append {relation : String} :
    (first ++ second).Defines relation ↔ first.Defines relation ∨ second.Defines relation := by
  simp only [Defines, statements_append, List.mem_append, or_and_right, exists_or]
  exact or_or_or_comm

private theorem derived_of_subset
    (facts : ∀ atom, .fact atom ∈ program.statements → .fact atom ∈ other.statements)
    (rules : ∀ head body, .rule head body ∈ program.statements → .rule head body ∈ other.statements)
    (derived : Derived program given world fact) : Derived other given world fact := by
  induction derived with
  | given fact holds => exact .given fact holds
  | stated atom statement binding fact denoted => exact .stated atom (facts atom statement) binding fact denoted
  | rule head body statement binding premise matched _ others fact denoted ih =>
    exact .rule head body (rules head body statement) binding premise matched ih others fact denoted

/-- Programs have the same models if they have the same facts and rules. -/
theorem model_congr (facts : ∀ atom, .fact atom ∈ program.statements ↔ .fact atom ∈ other.statements)
    (rules : ∀ head body, .rule head body ∈ program.statements ↔ .rule head body ∈ other.statements) :
    program.Model given world ↔ other.Model given world :=
  forall_congr' fun _ => iff_congr Iff.rfl
    ⟨derived_of_subset (fun atom => (facts atom).mp) fun head body => (rules head body).mp,
      derived_of_subset (fun atom => (facts atom).mpr) fun head body => (rules head body).mpr⟩

private theorem notMem_of_constraints (only : ∀ statement ∈ program.statements, ∃ body, statement = .constraint body)
    {statement : Statement} (other : ∀ body, statement ≠ .constraint body) : statement ∉ program.statements := by
  intro member
  obtain ⟨body, same⟩ := only statement member
  exact other body same

/-- Constraints take part in no model. -/
theorem model_append_constraints (only : ∀ statement ∈ second.statements, ∃ body, statement = .constraint body) :
    (first ++ second).Model given world ↔ first.Model given world := by
  have absent {statement : Statement} (other : ∀ body, statement ≠ .constraint body) :
      statement ∈ (first ++ second).statements ↔ statement ∈ first.statements := by
    rw [statements_append, List.mem_append]
    exact or_iff_left (notMem_of_constraints only other)
  exact model_congr (fun atom => absent nofun) fun head body => absent nofun

/-- Constraints by themselves derive nothing. -/
theorem model_iff_of_constraints (only : ∀ statement ∈ program.statements, ∃ body, statement = .constraint body) :
    program.Model given world ↔ world = given := by
  have derives (fact : Fact) : Derived program given world fact ↔ given fact := by
    constructor
    · intro derived
      cases derived with
      | given _ holds => exact holds
      | stated _ statement => exact absurd statement (notMem_of_constraints only nofun)
      | rule _ _ statement => exact absurd statement (notMem_of_constraints only nofun)
    · exact .given fact
  simp only [Model, derives, funext_iff, eq_iff_iff]

theorem defines_append_constraints (only : ∀ statement ∈ second.statements, ∃ body, statement = .constraint body)
    {relation : String} : (first ++ second).Defines relation ↔ first.Defines relation := by
  rw [defines_append]
  refine or_iff_left ?_
  rintro (⟨atom, statement, _⟩ | ⟨head, body, statement, _⟩)
  · exact absurd statement (notMem_of_constraints only nofun)
  · exact absurd statement (notMem_of_constraints only nofun)

theorem breaks_congr {body : List Literal}
    (agree : ∀ literal ∈ body, ∀ relation ∈ literal.relations, one.AgreeOn two relation) :
    Breaks one body ↔ Breaks two body :=
  exists_congr fun binding => forall_congr' fun literal => forall_congr' fun member =>
    literal.holds_agree (agree literal member) _ binding

theorem Model.breaks_iff (model : program.Model given world) {body : List Literal}
    (undefined : ∀ literal ∈ body, ∀ relation ∈ literal.relations, ¬ program.Defines relation) :
    Breaks world body ↔ Breaks given body :=
  breaks_congr fun literal member relation looked _ same =>
    model.iff_given (same ▸ undefined literal member relation looked)

/-- No rule looks at what the program defines. -/
def Flat (program : Program) : Prop :=
  ∀ head body, .rule head body ∈ program.statements → ∀ literal ∈ body, ∀ relation ∈ literal.relations,
    ¬ program.Defines relation

/-- The fact is stated, or a rule derives it from given facts. -/
def Fires (program : Program) (given : World) (fact : Fact) : Prop :=
  (∃ atom, .fact atom ∈ program.statements ∧ ∃ binding, atom.Denotes binding fact) ∨
    ∃ head body, .rule head body ∈ program.statements ∧ ∃ binding, head.Denotes binding fact ∧
      ∀ literal ∈ body, literal.Holds given (ruleScope head body) binding

theorem fires_append : (first ++ second).Fires given fact ↔ first.Fires given fact ∨ second.Fires given fact := by
  simp only [Fires, statements_append, List.mem_append, or_and_right, exists_or]
  exact or_or_or_comm

namespace Flat

theorem left (flat : (first ++ second).Flat) : first.Flat :=
  fun head body statement literal member relation looked defines =>
    flat head body (List.mem_append_left _ statement) literal member relation looked
      (defines_append.mpr (.inl defines))

theorem right (flat : (first ++ second).Flat) : second.Flat :=
  fun head body statement literal member relation looked defines =>
    flat head body (List.mem_append_right _ statement) literal member relation looked
      (defines_append.mpr (.inr defines))

theorem existsUnique_model (flat : program.Flat) (given : World) : ∃! world, program.Model given world := by
  classical
  have defined {head : Atom} {body : List Literal} (statement : .rule head body ∈ program.statements) :
      program.Defines head.relation := .inr ⟨head, body, statement, rfl⟩
  have stratified : program.Stratified fun relation => if program.Defines relation then 1 else 0 := by
    refine ⟨fun head body statement atom member => ?_, fun head body statement literal member _ relation looked => ?_⟩
    · rw [if_pos (defined statement)]
      split <;> omega
    · rw [if_pos (defined statement), if_neg (flat head body statement literal member relation looked)]
      exact Nat.zero_lt_one
  exact stratified.existsUnique_model given

theorem model_iff (flat : program.Flat) (model : program.Model given world) (fact : Fact) :
    world fact ↔ given fact ∨ program.Fires given fact := by
  rw [model.iff_supported]
  refine or_congr_right (or_congr_right ?_)
  refine exists_congr fun head => exists_congr fun body => and_congr_right fun statement => ?_
  refine exists_congr fun binding => and_congr_right fun _ => ?_
  refine forall_congr' fun literal => forall_congr' fun member => literal.holds_agree (fun relation looked => ?_) _ _
  intro fact same
  exact model.iff_given (same ▸ flat head body statement literal member relation looked)

/-- The facts of a common model are those of both models. -/
theorem append_iff (flat : (first ++ second).Flat) (model : (first ++ second).Model given world)
    (ofFirst : first.Model given one) (ofSecond : second.Model given two) (fact : Fact) :
    world fact ↔ one fact ∨ two fact := by
  rw [flat.model_iff model, flat.left.model_iff ofFirst, flat.right.model_iff ofSecond, fires_append]
  exact or_or_distrib_left

end Flat

end GridPuzzle.Program
