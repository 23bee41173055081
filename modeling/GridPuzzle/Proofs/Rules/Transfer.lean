import GridPuzzle.Proofs.Rules.Compose

/-!
Programs that do the same under other names. Where each rule of one program is followed by a rule of another, with
some relations renamed, the facts of one model are found in the other. Rules that look at given facts only can be
settled beforehand: the other rules then start from what they derive.
-/
namespace GridPuzzle

/-- Facts of a relation in the first world are facts of the relations that it is renamed to in the second. -/
def World.Carries (renames : String → String → Prop) (one two : World) : Prop :=
  ∀ relation relation', renames relation relation' → ∀ values, one ⟨relation, values⟩ → two ⟨relation', values⟩

namespace Test

variable {renames : String → String → Prop} {one two : World} {binding : Binding} {relation relation' : String}
  {terms : List Term}

theorem holds_of_carries (carries : ∀ values, one ⟨relation, values⟩ → two ⟨relation', values⟩)
    (holds : (Test.holds ⟨relation, terms⟩).Holds one binding) :
    (Test.holds ⟨relation', terms⟩).Holds two binding := by
  obtain ⟨⟨_, values⟩, ⟨rfl, denoted⟩, inWorld⟩ := holds
  exact ⟨⟨relation', values⟩, ⟨rfl, denoted⟩, carries values inWorld⟩

theorem fails_of_carries (carries : ∀ values, two ⟨relation', values⟩ → one ⟨relation, values⟩)
    (fails : (Test.fails ⟨relation, terms⟩).Holds one binding) :
    (Test.fails ⟨relation', terms⟩).Holds two binding := by
  rintro ⟨_, values⟩ ⟨rfl, denoted⟩ inWorld
  exact fails ⟨relation, values⟩ ⟨rfl, denoted⟩ (carries values inWorld)

end Test

namespace Program

variable {program other first second : Program} {given given' world one two : World} {fact : Fact}

section Carries

variable {renames : String → String → Prop} (model : program.Model given one) (model' : other.Model given' two)
include model model'

/-- One program follows another if its rules and facts do so, each as far as the premises have been followed. -/
theorem Model.carries (fresh : ∀ fact, given fact → ∀ relation, ¬ renames fact.relation relation)
    (facts : ∀ atom, .fact atom ∈ program.statements → ∀ relation, renames atom.relation relation →
      .fact ⟨relation, atom.args⟩ ∈ other.statements)
    (rules : ∀ head body, .rule head body ∈ program.statements → ∀ relation, renames head.relation relation →
      ∀ binding, (∀ literal ∈ body, literal.Holds one (ruleScope head body) binding) →
      (∀ atom, .holds atom ∈ body → ∀ relation, renames atom.relation relation →
        (Test.holds ⟨relation, atom.args⟩).Holds two binding) →
      ∃ body', .rule ⟨relation, head.args⟩ body' ∈ other.statements ∧
        ∀ literal ∈ body', literal.Holds two (ruleScope ⟨relation, head.args⟩ body') binding) :
    World.Carries renames one two := by
  intro relation relation' renamed values holds
  -- by induction on derivations: a rule's head is carried if what its positive tests found is
  refine model.induction (fun fact => ∀ relation, renames fact.relation relation → two ⟨relation, fact.values⟩)
    ?_ ?_ ?_ _ holds relation' renamed
  · intro fact isGiven relation renamed
    exact absurd renamed (fresh fact isGiven relation)
  · intro atom statement binding fact denoted relation renamed
    rw [denoted.1] at renamed
    exact (model'.iff_supported _).mpr
      (.inr (.inl ⟨_, facts atom statement relation renamed, binding, rfl, denoted.2⟩))
  · intro head body statement binding met before fact denoted relation renamed
    rw [denoted.1] at renamed
    have carried : ∀ atom, .holds atom ∈ body → ∀ relation, renames atom.relation relation →
        (Test.holds ⟨relation, atom.args⟩).Holds two binding := by
      intro atom member relation renamed
      obtain ⟨premise, premiseDenoted, _, earlier⟩ := before atom member
      rw [← premiseDenoted.1] at renamed
      exact ⟨⟨relation, premise.values⟩, ⟨rfl, premiseDenoted.2⟩, earlier relation renamed⟩
    obtain ⟨body', statement', met'⟩ := rules head body statement relation renamed binding met carried
    exact (model'.iff_supported _).mpr (.inr (.inr ⟨_, body', statement', binding, ⟨rfl, denoted.2⟩, met'⟩))

end Carries

theorem violated_of_followed
    (follows : ∀ body, .constraint body ∈ program.statements → ∀ binding,
      (∀ literal ∈ body, literal.Holds one (body.flatMap Literal.outer) binding) →
      ∃ body', .constraint body' ∈ other.statements ∧
        ∀ literal ∈ body', literal.Holds two (body'.flatMap Literal.outer) binding)
    (violated : program.Violated one) : other.Violated two := by
  obtain ⟨body, statement, binding, met⟩ := violated
  obtain ⟨body', statement', met'⟩ := follows body statement binding met
  exact ⟨body', statement', binding, met'⟩

/-- No rule of the program looks at what it or the other one defines. -/
def Settled (program other : Program) : Prop :=
  ∀ head body, .rule head body ∈ program.statements → ∀ literal ∈ body, ∀ relation ∈ literal.relations,
    ¬ other.Defines relation ∧ ¬ program.Defines relation

/-- What is given, and what the program derives from it at once. -/
def outcome (program : Program) (given : World) : World := fun fact => given fact ∨ program.Fires given fact

theorem Settled.undefined (settled : second.Settled first) {head : Atom} {body : List Literal}
    (statement : .rule head body ∈ second.statements) {literal : Literal} (member : literal ∈ body)
    {relation : String} (looked : relation ∈ literal.relations) : ¬ (first ++ second).Defines relation := by
  rw [defines_append, not_or]
  exact settled head body statement literal member relation looked

private theorem given_of_derived (derived : Derived program given world fact)
    (undefined : ¬ program.Defines fact.relation) : given fact := by
  cases derived with
  | given _ isGiven => exact isGiven
  | stated atom statement binding _ denoted => exact absurd (.inl ⟨atom, statement, denoted.1.symm⟩) undefined
  | rule head body statement binding premise matched derived others _ denoted =>
    exact absurd (.inr ⟨head, body, statement, denoted.1.symm⟩) undefined

private theorem fires_defines (fires : program.Fires given fact) : program.Defines fact.relation := by
  rcases fires with ⟨atom, statement, _, denoted⟩ | ⟨head, body, statement, _, denoted, _⟩
  · exact .inl ⟨atom, statement, denoted.1.symm⟩
  · exact .inr ⟨head, body, statement, denoted.1.symm⟩

section Settled

variable (settled : second.Settled first)
  (agree : ∀ head body, .rule head body ∈ second.statements → ∀ literal ∈ body, ∀ relation ∈ literal.relations,
    world.AgreeOn given relation)
include settled agree

private theorem derived_append (derived : Derived (first ++ second) given world fact) :
    Derived first (second.outcome given) world fact := by
  induction derived with
  | given fact isGiven => exact .given fact (.inl isGiven)
  | stated atom statement binding fact denoted =>
    rcases List.mem_append.mp statement with own | settledFact
    · exact .stated atom own binding fact denoted
    · exact .given fact (.inr (.inl ⟨atom, settledFact, binding, denoted⟩))
  | rule head body statement binding premise matched derived others fact denoted ih =>
    rcases List.mem_append.mp statement with own | settledRule
    · exact .rule head body own binding premise matched ih others fact denoted
    · refine .given fact (.inr (.inr ⟨head, body, settledRule, binding, denoted, fun literal member => ?_⟩))
      by_cases positive : ∃ atom, literal = .holds atom
      · obtain ⟨atom, rfl⟩ := positive
        have undefined := settled.undefined settledRule member (List.mem_singleton_self atom.relation)
        rw [← (matched atom member).1] at undefined
        exact ⟨premise atom, matched atom member, given_of_derived (derived atom member) undefined⟩
      · refine (literal.holds_agree (fun relation looked => ?_) _ binding).mp
          (others literal member fun atom same => positive ⟨atom, same⟩)
        exact agree head body settledRule literal member relation looked

omit settled in
private theorem derived_of_outcome (derived : Derived first (second.outcome given) world fact) :
    Derived (first ++ second) given world fact := by
  induction derived with
  | given fact either =>
    rcases either with isGiven | ⟨atom, statement, binding, denoted⟩ | ⟨head, body, statement, binding, denoted, met⟩
    · exact .given fact isGiven
    · exact .stated atom (List.mem_append_right _ statement) binding fact denoted
    · have found : ∀ atom, .holds atom ∈ body → ∃ fact, atom.Denotes binding fact ∧ given fact :=
        fun atom member => met (.holds atom) member
      have : Nonempty Fact := ⟨fact⟩
      choose! premise matched isGiven using found
      refine .rule head body (List.mem_append_right _ statement) binding premise matched
        (fun atom member => .given _ (isGiven atom member)) (fun literal member _ => ?_) fact denoted
      refine (literal.holds_agree (fun relation looked => ?_) _ binding).mpr (met literal member)
      exact agree head body statement literal member relation looked
  | stated atom statement binding fact denoted =>
    exact .stated atom (List.mem_append_left _ statement) binding fact denoted
  | rule head body statement binding premise matched derived others fact denoted ih =>
    exact .rule head body (List.mem_append_left _ statement) binding premise matched ih others fact denoted

end Settled

/-- A model of both programs is one of the first over the outcome of the second. -/
theorem model_append_iff (settled : second.Settled first) :
    (first ++ second).Model given world ↔ first.Model (second.outcome given) world := by
  constructor
  · intro model fact
    have agree : ∀ head body, .rule head body ∈ second.statements → ∀ literal ∈ body,
        ∀ relation ∈ literal.relations, world.AgreeOn given relation := by
      intro head body statement literal member relation looked fact same
      exact model.iff_given (same ▸ settled.undefined statement member looked)
    exact (model fact).trans ⟨derived_append settled agree, derived_of_outcome agree⟩
  · intro model fact
    have agree : ∀ head body, .rule head body ∈ second.statements → ∀ literal ∈ body,
        ∀ relation ∈ literal.relations, world.AgreeOn given relation := by
      intro head body statement literal member relation looked fact same
      obtain ⟨outside, unfired⟩ := settled head body statement literal member relation looked
      rw [model.iff_given (same ▸ outside)]
      exact or_iff_left fun fires => unfired (same ▸ fires_defines fires)
    exact (model fact).trans ⟨derived_of_outcome agree, derived_append settled agree⟩

end Program

end GridPuzzle
