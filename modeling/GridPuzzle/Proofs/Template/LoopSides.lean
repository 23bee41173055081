import GridPuzzle.Proofs.Template.Course

/-!
The sides of loops. Following every column downwards flags just the cells that lie outside, whatever
the loops are, and where their sides match up the flag tells apart what they part.
-/
namespace GridPuzzle.Template

variable {rows cols : Nat} {course : Course rows cols} {given world : World} {inside outside : Option Color}
  {row col : Int}

def placeAbove : Place := Place.here.step Side.up.offset

theorem rule_mem_sidesOfLoop {head : Atom} {body : List Literal} :
    .rule head body ∈ (sidesOfLoop inside outside).statements ↔
      head = .cell outsideLoop ⟨.int (-1), Place.here.col⟩ ∧ body = [.test (onGrid ⟨.anon, Place.here.col⟩)] ∨
      head = .cell outsideLoop .here ∧
        (body = [.test (onGrid .here), .holds (.cell outsideLoop placeAbove),
            .fails (Side.left.fact Relation.passes placeAbove)] ∨
          body = [.test (onGrid .here), .fails (.cell outsideLoop placeAbove),
            .holds (Side.left.fact Relation.passes placeAbove)]) := by
  cases inside <;> cases outside <;> simp [sidesOfLoop, placeAbove, and_or_left]

theorem fact_mem_sidesOfLoop {atom : Atom} : .fact atom ∉ (sidesOfLoop inside outside).statements := by
  cases inside <;> cases outside <;> simp [sidesOfLoop]

theorem constraint_mem_sidesOfLoop {body : List Literal} :
    .constraint body ∈ (sidesOfLoop inside outside).statements ↔
      (∃ color, inside = some color ∧
        body = [.test (onGrid .here), .test (color.on .here), .holds (.cell outsideLoop .here)]) ∨
      ∃ color, outside = some color ∧
        body = [.test (onGrid .here), .test (color.on .here), .fails (.cell outsideLoop .here)] := by
  cases inside <;> cases outside <;> simp [sidesOfLoop]

theorem defines_sidesOfLoop {relation : String} (defines : (sidesOfLoop inside outside).Defines relation) :
    relation = outsideLoop := by
  rcases defines with ⟨atom, statement, _⟩ | ⟨head, body, statement, rfl⟩
  · exact absurd statement fact_mem_sidesOfLoop
  · rcases rule_mem_sidesOfLoop.mp statement with ⟨rfl, _⟩ | ⟨rfl, _⟩ <;> rfl

private theorem unstated {fact : Fact} : ¬ ∃ atom, .fact atom ∈ (sidesOfLoop inside outside).statements ∧
    ∃ binding, atom.Denotes binding fact := by
  intro stated
  obtain ⟨atom, statement, _⟩ := stated
  exact fact_mem_sidesOfLoop statement

/-- The columns are followed from a row above the grid. -/
def Scanned (rows cols : Nat) (row col : Int) : Prop :=
  InGrid rows cols row col ∨ row = -1 ∧ ∃ below, InGrid rows cols below col

def outsideFacts (course : Course rows cols) : World := fun fact =>
  ∃ row col, Scanned rows cols row col ∧ course.Outside row col ∧ fact = .cell outsideLoop row col

theorem outsideFacts_cell : outsideFacts course (.cell outsideLoop row col) ↔
    Scanned rows cols row col ∧ course.Outside row col := by
  simp [outsideFacts]

section Rules

variable (draws : world.Draws Relation.passes course) {binding : Binding}

private theorem placeAbove_stands (here : Place.Here binding row col) : placeAbove.Stands binding (row - 1) col := by
  have stands := here.step_stands Side.up.offset
  rwa [show row + Side.up.offset.row.val = row - 1 from rfl,
    show col + Side.up.offset.col.val = col from Int.add_zero col] at stands

include draws

private theorem column_holds : (onGrid ⟨.anon, Place.here.col⟩).Holds world binding ↔
    ∃ below col, InGrid rows cols below col ∧ binding "C" = .num col := by
  constructor
  · intro holds
    obtain ⟨premise, ⟨same, denoted⟩, holds⟩ := holds
    obtain ⟨below, col, inGrid, rfl⟩ := (draws.grid premise same).mp holds
    exact ⟨below, col, inGrid, denoted.2.1.symm⟩
  · intro covered
    obtain ⟨below, col, inGrid, bound⟩ := covered
    exact ⟨.cell Relation.grid below col, ⟨rfl, trivial, bound.symm, trivial⟩, draws.grid_cell.mpr inGrid⟩

private theorem first_met {fact : Fact} : (∃ binding, (Atom.cell outsideLoop ⟨.int (-1), Place.here.col⟩).Denotes
      binding fact ∧ (onGrid ⟨.anon, Place.here.col⟩).Holds world binding) ↔
    ∃ col, fact = .cell outsideLoop (-1) col ∧ ∃ below, InGrid rows cols below col := by
  have denotes {binding : Binding} {col : Int} (bound : binding "C" = .num col) :
      (Atom.cell outsideLoop ⟨.int (-1), Place.here.col⟩).Denotes binding fact ↔
        fact = .cell outsideLoop (-1) col :=
    Atom.denotes_iff (.cons (Term.stands_int (-1)) (.cons (bound ▸ Term.stands_var "C") .nil))
  constructor
  · intro met
    obtain ⟨binding, denoted, holds⟩ := met
    obtain ⟨below, col, inGrid, bound⟩ := (column_holds draws).mp holds
    exact ⟨col, (denotes bound).mp denoted, below, inGrid⟩
  · intro covered
    obtain ⟨col, same, below, inGrid⟩ := covered
    exact ⟨fun _ => .num col, (denotes rfl).mpr same, (column_holds draws).mpr ⟨below, col, inGrid, rfl⟩⟩

/-- The flag passes to the cell below unless the loop joins the cell above to its left neighbor. -/
private theorem next_met {fact : Fact} : (∃ binding, (Atom.cell outsideLoop .here).Denotes binding fact ∧
      (onGrid .here).Holds world binding ∧
      ((Test.holds (.cell outsideLoop placeAbove)).Holds world binding ∧
        (Test.fails (Side.left.fact Relation.passes placeAbove)).Holds world binding ∨
      (Test.fails (.cell outsideLoop placeAbove)).Holds world binding ∧
        (Test.holds (Side.left.fact Relation.passes placeAbove)).Holds world binding)) ↔
    ∃ row col, fact = .cell outsideLoop row col ∧ InGrid rows cols row col ∧
      (world (.cell outsideLoop (row - 1) col) ↔ course.passes (row - 1) col .left = false) := by
  have read {binding : Binding} {row col : Int} (here : Place.Here binding row col) :
      ((Test.holds (.cell outsideLoop placeAbove)).Holds world binding ∧
        (Test.fails (Side.left.fact Relation.passes placeAbove)).Holds world binding ∨
      (Test.fails (.cell outsideLoop placeAbove)).Holds world binding ∧
        (Test.holds (Side.left.fact Relation.passes placeAbove)).Holds world binding) ↔
      (world (.cell outsideLoop (row - 1) col) ↔ course.passes (row - 1) col .left = false) := by
    rw [holds_cell (placeAbove_stands here), fails_cell (placeAbove_stands here), holds_side (placeAbove_stands here) .left,
      fails_side (placeAbove_stands here) .left, draws.through_iff, ← Bool.not_eq_true]
    tauto
  have denotes {binding : Binding} {row col : Int} (here : Place.Here binding row col) :
      (Atom.cell outsideLoop .here).Denotes binding fact ↔ fact = .cell outsideLoop row col :=
    Atom.denotes_iff here.stands.args
  constructor
  · intro met
    obtain ⟨binding, denoted, onGrid, either⟩ := met
    obtain ⟨row, col, inGrid, here⟩ := draws.onGrid_here.mp onGrid
    exact ⟨row, col, (denotes here).mp denoted, inGrid, (read here).mp either⟩
  · intro next
    obtain ⟨row, col, same, inGrid, passed⟩ := next
    obtain ⟨binding, here⟩ := Place.exists_here row col
    exact ⟨binding, (denotes here).mpr same, draws.onGrid_here.mpr ⟨row, col, inGrid, here⟩,
      (read here).mpr passed⟩

/-- The facts that the rules derive from a world in one step. -/
private theorem ruled_iff {fact : Fact} :
    (∃ head body, .rule head body ∈ (sidesOfLoop inside outside).statements ∧ ∃ binding,
      head.Denotes binding fact ∧ ∀ literal ∈ body, literal.Holds world (Program.ruleScope head body) binding) ↔
    (∃ col, fact = .cell outsideLoop (-1) col ∧ ∃ below, InGrid rows cols below col) ∨
    ∃ row col, fact = .cell outsideLoop row col ∧ InGrid rows cols row col ∧
      (world (.cell outsideLoop (row - 1) col) ↔ course.passes (row - 1) col .left = false) := by
  rw [← first_met draws, ← next_met draws]
  constructor
  · intro derived
    obtain ⟨head, body, statement, binding, denoted, met⟩ := derived
    rcases rule_mem_sidesOfLoop.mp statement with ⟨rfl, rfl⟩ | ⟨rfl, rfl | rfl⟩
    · exact .inl ⟨binding, denoted, met _ (List.mem_singleton_self _)⟩
    · rw [List.forall_mem_cons, List.forall_mem_cons, List.forall_mem_singleton] at met
      exact .inr ⟨binding, denoted, met.1, .inl met.2⟩
    · rw [List.forall_mem_cons, List.forall_mem_cons, List.forall_mem_singleton] at met
      exact .inr ⟨binding, denoted, met.1, .inr met.2⟩
  · intro either
    rcases either with ⟨binding, denoted, holds⟩ | ⟨binding, denoted, onGrid, either⟩
    · exact ⟨_, _, rule_mem_sidesOfLoop.mpr (.inl ⟨rfl, rfl⟩), binding, denoted, List.forall_mem_singleton.mpr holds⟩
    · rcases either with kept | turned
      · refine ⟨_, _, rule_mem_sidesOfLoop.mpr (.inr ⟨rfl, .inl rfl⟩), binding, denoted, ?_⟩
        rw [List.forall_mem_cons, List.forall_mem_cons, List.forall_mem_singleton]
        exact ⟨onGrid, kept⟩
      · refine ⟨_, _, rule_mem_sidesOfLoop.mpr (.inr ⟨rfl, .inr rfl⟩), binding, denoted, ?_⟩
        rw [List.forall_mem_cons, List.forall_mem_cons, List.forall_mem_singleton]
        exact ⟨onGrid, turned⟩

end Rules

private theorem scanned_above (inGrid : InGrid rows cols row col) : Scanned rows cols (row - 1) col := by
  by_cases first : row = 0
  · exact .inr ⟨by omega, row, inGrid⟩
  · unfold Scanned InGrid at *
    omega

/-- A flag rests on the facts given and on the flag above it. -/
def flagRank (fact : Fact) : Nat :=
  if fact.relation = outsideLoop then
    match fact.values with
    | .num row :: _ => (row + 2).toNat
    | _ => 0
  else 0

private theorem flagRank_of_ne {fact : Fact} (apart : fact.relation ≠ outsideLoop) : flagRank fact = 0 :=
  if_neg apart

private theorem flagRank_lt (draws : world.Draws Relation.passes course) {head atom : Atom}
    {body : List Literal} (statement : .rule head body ∈ (sidesOfLoop inside outside).statements)
    {binding : Binding} {fact premise : Fact} (denoted : head.Denotes binding fact)
    (met : ∀ literal ∈ body, literal.Holds world (Program.ruleScope head body) binding)
    (member : .holds atom ∈ body) (premiseDenoted : atom.Denotes binding premise) :
    flagRank premise < flagRank fact := by
  rcases rule_mem_sidesOfLoop.mp statement with ⟨rfl, rfl⟩ | ⟨rfl, either⟩
  · cases List.mem_singleton.mp member
    have apart : premise.relation ≠ outsideLoop := premiseDenoted.1 ▸ (by decide)
    have first := (Atom.denotes_iff (.cons (Term.stands_int (-1)) (.cons (Term.stands_var "C") .nil))).mp denoted
    rw [flagRank_of_ne apart, first]
    exact Nat.zero_lt_one
  · have onGrid : (onGrid .here).Holds world binding := by
      rcases either with rfl | rfl <;> exact met _ List.mem_cons_self
    obtain ⟨row, col, inGrid, here⟩ := draws.onGrid_here.mp onGrid
    have next := (Atom.denotes_iff here.stands.args).mp denoted
    have rank : flagRank fact = (row + 2).toNat := next ▸ rfl
    have low := inGrid.1.1
    by_cases same : atom.relation = outsideLoop
    · have isAbove : atom = .cell outsideLoop placeAbove := by
        rcases either with rfl | rfl
        · simp only [List.mem_cons, List.not_mem_nil, or_false] at member
          rcases member with isGrid | isAbove | isFails
          · cases isGrid
            exact absurd same (by decide)
          · cases isAbove
            rfl
          · cases isFails
        · simp only [List.mem_cons, List.not_mem_nil, or_false] at member
          rcases member with isGrid | isFails | isLeft
          · cases isGrid
            exact absurd same (by decide)
          · cases isFails
          · cases isLeft
            exact absurd same (by decide)
      subst isAbove
      have before := (Atom.denotes_iff (placeAbove_stands here).args).mp premiseDenoted
      have rank' : flagRank premise = (row - 1 + 2).toNat := before ▸ rfl
      omega
    · have apart : premise.relation ≠ outsideLoop := fun isFlag => same (premiseDenoted.1.symm.trans isFlag)
      rw [flagRank_of_ne apart]
      omega

/-- Going down a column, the rules leave one choice for the flag of each cell. -/
private theorem flag_iff (flag : Int → Int → Prop)
    (first : ∀ below col, InGrid rows cols below col → flag (-1) col)
    (next : ∀ row col, InGrid rows cols row col →
      (flag row col ↔ (flag (row - 1) col ↔ course.passes (row - 1) col .left = false)))
    (scanned : Scanned rows cols row col) : flag row col ↔ course.Outside row col := by
  obtain ⟨depth, same⟩ := Int.eq_ofNat_of_zero_le (show 0 ≤ row + 1 by
    rcases scanned with inGrid | ⟨rfl, _⟩
    · have := inGrid.1.1
      omega
    · decide)
  induction depth generalizing row with
  | zero =>
    cases (by omega : row = -1)
    rcases scanned with inGrid | ⟨_, below, inGrid⟩
    · exact absurd inGrid.1.1 (by decide)
    · exact iff_of_true (first below col inGrid) Even.zero
  | succ depth ih =>
    have inGrid : InGrid rows cols row col := by
      rcases scanned with inGrid | ⟨rfl, _⟩
      · exact inGrid
      · omega
    rw [next row col inGrid, course.outside_iff inGrid, ih (scanned_above inGrid) (by omega)]

theorem outsideFacts_relation {fact : Fact} (flagged : outsideFacts course fact) :
    fact.relation = outsideLoop := by
  obtain ⟨_, _, _, _, rfl⟩ := flagged
  rfl

private theorem draws_flagged (draws : given.Draws Relation.passes course) :
    (given.join (outsideFacts course)).Draws Relation.passes course := by
  refine draws.join fun fact flagged => ?_
  rw [outsideFacts_relation flagged]
  decide

section Given

variable (fresh : ∀ fact, given fact → fact.relation ≠ outsideLoop)
include fresh

theorem flagged_cell : (given.join (outsideFacts course)) (.cell outsideLoop row col) ↔
    Scanned rows cols row col ∧ course.Outside row col :=
  (or_iff_right fun isGiven => fresh _ isGiven rfl).trans outsideFacts_cell

variable (draws : given.Draws Relation.passes course)
include draws

/-- The flags that lie outside are just those that the rules derive from them. -/
private theorem flagged_supported (fact : Fact) : (given.join (outsideFacts course)) fact ↔ given fact ∨
    (∃ atom, .fact atom ∈ (sidesOfLoop inside outside).statements ∧ ∃ binding, atom.Denotes binding fact) ∨
    ∃ head body, .rule head body ∈ (sidesOfLoop inside outside).statements ∧ ∃ binding,
      head.Denotes binding fact ∧ ∀ literal ∈ body,
        literal.Holds (given.join (outsideFacts course)) (Program.ruleScope head body) binding := by
  have drawn := draws_flagged draws
  have next {row col : Int} (inGrid : InGrid rows cols row col) : course.Outside row col ↔
      ((given.join (outsideFacts course)) (.cell outsideLoop (row - 1) col) ↔
        course.passes (row - 1) col .left = false) := by
    rw [flagged_cell fresh, and_iff_right (scanned_above inGrid), course.outside_iff inGrid]
  rw [ruled_iff drawn, or_iff_right unstated]
  refine or_congr_right ⟨fun flagged => ?_, fun either => ?_⟩
  · obtain ⟨row, col, inGrid | ⟨rfl, below, inGrid⟩, isOutside, rfl⟩ := flagged
    · exact .inr ⟨row, col, rfl, inGrid, (next inGrid).mp isOutside⟩
    · exact .inl ⟨col, rfl, below, inGrid⟩
  · rcases either with ⟨col, rfl, below, inGrid⟩ | ⟨row, col, rfl, inGrid, passed⟩
    · exact outsideFacts_cell.mpr ⟨.inr ⟨rfl, below, inGrid⟩, Even.zero⟩
    · exact outsideFacts_cell.mpr ⟨.inl inGrid, (next inGrid).mpr passed⟩

private theorem flagged_of_model (model : (sidesOfLoop inside outside).Model given world) (fact : Fact)
    (same : fact.relation = outsideLoop) : world fact ↔ outsideFacts course fact := by
  have undefined {relation : String} (apart : relation ≠ outsideLoop) :
      ¬ (sidesOfLoop inside outside).Defines relation := fun defines => apart (defines_sidesOfLoop defines)
  have drawn := draws.of_model model (undefined (by decide)) (undefined (by decide))
  have derived {fact : Fact} (same : fact.relation = outsideLoop) := (model.iff_supported fact).trans
    ((or_iff_right fun isGiven => fresh fact isGiven same).trans
      ((or_iff_right unstated).trans (ruled_iff drawn)))
  have flags {row col : Int} (scanned : Scanned rows cols row col) :
      world (.cell outsideLoop row col) ↔ course.Outside row col := by
    refine flag_iff (fun row col => world (.cell outsideLoop row col)) ?_ ?_ scanned
    · exact fun below col inGrid => (derived rfl).mpr (.inl ⟨col, rfl, below, inGrid⟩)
    · intro row col inGrid
      refine (derived rfl).trans ⟨fun either => ?_, fun passed => .inr ⟨row, col, rfl, inGrid, passed⟩⟩
      rcases either with ⟨_, same, _⟩ | ⟨_, _, same, _, passed⟩
      · obtain ⟨_, rfl, _⟩ := Fact.cell_inj.mp same
        exact absurd inGrid.1.1 (by decide)
      · obtain ⟨_, rfl, rfl⟩ := Fact.cell_inj.mp same
        exact passed
  constructor
  · intro holds
    rcases (derived same).mp holds with ⟨col, rfl, below, inGrid⟩ | ⟨row, col, rfl, inGrid, _⟩
    · exact outsideFacts_cell.mpr ⟨.inr ⟨rfl, below, inGrid⟩, Even.zero⟩
    · exact outsideFacts_cell.mpr ⟨.inl inGrid, (flags (.inl inGrid)).mp holds⟩
  · intro flagged
    obtain ⟨row, col, scanned, isOutside, rfl⟩ := flagged
    exact (flags scanned).mpr isOutside

/-- The world with the flags that lie outside is the only model. -/
theorem sidesOfLoop_model_iff : (sidesOfLoop inside outside).Model given world ↔
    world = given.join (outsideFacts course) := by
  constructor
  · intro model
    funext fact
    refine propext ?_
    by_cases same : fact.relation = outsideLoop
    · rw [flagged_of_model fresh draws model fact same]
      exact (or_iff_right fun isGiven => fresh fact isGiven same).symm
    · rw [model.iff_given fun defines => same (defines_sidesOfLoop defines)]
      exact (or_iff_left fun flagged => same (outsideFacts_relation flagged)).symm
  · intro same
    subst same
    refine Program.Model.of_supported flagRank (flagged_supported fresh draws) ?_
    intro head body statement binding fact denoted met atom member
    obtain ⟨premise, premiseDenoted, holds⟩ := met _ member
    exact ⟨premise, premiseDenoted, holds, flagRank_lt (draws_flagged draws) statement denoted met member premiseDenoted⟩

end Given

/-- The cell has the flag of those that lie outside. -/
def IsOutside (world : World) (row col : Int) : Prop := world (.cell outsideLoop row col)

private theorem violated_sidesOfLoop (draws : world.Draws Relation.passes course) :
    (sidesOfLoop inside outside).Violated world ↔
      (∃ color, inside = some color ∧ ∃ row col, InGrid rows cols row col ∧ color.Matches world row col ∧
        IsOutside world row col) ∨
      ∃ color, outside = some color ∧ ∃ row col, InGrid rows cols row col ∧ color.Matches world row col ∧
        ¬ IsOutside world row col := by
  constructor
  · intro violated
    obtain ⟨body, statement, binding, met⟩ := violated
    rcases constraint_mem_sidesOfLoop.mp statement with ⟨color, chosen, rfl⟩ | ⟨color, chosen, rfl⟩
    · rw [List.forall_mem_cons, List.forall_mem_cons, List.forall_mem_singleton] at met
      obtain ⟨row, col, inGrid, here⟩ := draws.onGrid_here.mp met.1
      exact .inl ⟨color, chosen, row, col, inGrid, (holds_on color here.stands).mp met.2.1,
        (holds_cell here.stands).mp met.2.2⟩
    · rw [List.forall_mem_cons, List.forall_mem_cons, List.forall_mem_singleton] at met
      obtain ⟨row, col, inGrid, here⟩ := draws.onGrid_here.mp met.1
      exact .inr ⟨color, chosen, row, col, inGrid, (holds_on color here.stands).mp met.2.1,
        (fails_cell here.stands).mp met.2.2⟩
  · intro either
    rcases either with ⟨color, chosen, row, col, inGrid, matched, flagged⟩ |
      ⟨color, chosen, row, col, inGrid, matched, unflagged⟩
    · obtain ⟨binding, here⟩ := Place.exists_here row col
      refine ⟨_, constraint_mem_sidesOfLoop.mpr (.inl ⟨color, chosen, rfl⟩), binding, ?_⟩
      rw [List.forall_mem_cons, List.forall_mem_cons, List.forall_mem_singleton]
      exact ⟨draws.onGrid_here.mpr ⟨row, col, inGrid, here⟩, (holds_on color here.stands).mpr matched,
        (holds_cell here.stands).mpr flagged⟩
    · obtain ⟨binding, here⟩ := Place.exists_here row col
      refine ⟨_, constraint_mem_sidesOfLoop.mpr (.inr ⟨color, chosen, rfl⟩), binding, ?_⟩
      rw [List.forall_mem_cons, List.forall_mem_cons, List.forall_mem_singleton]
      exact ⟨draws.onGrid_here.mpr ⟨row, col, inGrid, here⟩, (holds_on color here.stands).mpr matched,
        (fails_cell here.stands).mpr unflagged⟩

/-- Whatever sides a grid's cells have, the rules have one model, whose flag is that of an even number of
cells above that are joined to the left, and it breaks a constraint exactly if a cell of a color lies on the
wrong side. Where sides are answered and of even number, as loops without ends make them, free cells that are
neighbors have one flag, and so have all that a path of them joins; at the border they have the flag. -/
theorem sidesOfLoop_agree {rows cols : Nat} (course : Course rows cols) (given : World)
    (inside outside : Option Color) (draws : given.Draws Relation.passes course)
    (fresh : ∀ fact, given fact → fact.relation ≠ outsideLoop) :
    (∃! world, (sidesOfLoop inside outside).Model given world) ∧
    (∀ world, (sidesOfLoop inside outside).Model given world →
      (∀ row col, InGrid rows cols row col → (IsOutside world row col ↔ course.Outside row col)) ∧
      ((sidesOfLoop inside outside).Violated world ↔
        (∃ color, inside = some color ∧ ∃ row col, InGrid rows cols row col ∧ color.Matches world row col ∧
          IsOutside world row col) ∨
        ∃ color, outside = some color ∧ ∃ row col, InGrid rows cols row col ∧ color.Matches world row col ∧
          ¬ IsOutside world row col) ∧
      (¬ sidesAnswered.Violated given →
        (∀ row col, InGrid rows cols row col → Even (Side.all.countP (course.passes row col))) →
        (∀ row col row' col', course.Free row col → course.Free row' col' →
          (row - row').natAbs + (col - col').natAbs = 1 →
            (IsOutside world row col ↔ IsOutside world row' col')) ∧
        (∀ row col row' col', Plane.Reach course.Free row col row' col' →
          (IsOutside world row col ↔ IsOutside world row' col')) ∧
        ∀ row col, course.Free row col → (row = 0 ∨ row + 1 = rows ∨ col = 0 ∨ col + 1 = cols) →
          IsOutside world row col)) ∧
    ∀ color, ∀ loop ∈ [simpleLoop color false, crossingLoop color false],
      (∀ fact, given fact → fact.relation ≠ passedBy) →
      ∀ world, (freePath color false ++ loop).Model given world → ¬ (freePath color false ++ loop).Violated world →
        ¬ sidesAnswered.Violated given ∧
        ∀ row col, InGrid rows cols row col → Even (Side.all.countP (course.passes row col)) := by
  refine ⟨⟨_, (sidesOfLoop_model_iff fresh draws).mpr rfl, fun world model =>
    (sidesOfLoop_model_iff fresh draws).mp model⟩, fun world model => ?_, fun color loop listed unmarked => ?_⟩
  · have same := (sidesOfLoop_model_iff fresh draws).mp model
    have flags {row col : Int} (inGrid : InGrid rows cols row col) :
        IsOutside world row col ↔ course.Outside row col := by
      rw [IsOutside, same, flagged_cell fresh]
      exact and_iff_right (.inl inGrid)
    refine ⟨fun row col inGrid => flags inGrid, violated_sidesOfLoop (same ▸ draws_flagged draws),
      fun answered even => ?_⟩
    have closed : course.Closed := ⟨draws.answered_iff.mp answered, even⟩
    refine ⟨fun row col row' col' free free' near => ?_, fun row col row' col' reach => ?_,
      fun row col free ring => ?_⟩
    · rw [flags free.1, flags free'.1]
      exact closed.outside_iff_of_near free free' near
    · rw [flags reach.symm.ends_shaded.1, flags reach.ends_shaded.1]
      exact closed.outside_iff_of_reach reach
    · exact (flags free.1).mpr (closed.outside_of_onRing free ring)
  · intro world model kept
    have closed : course.Closed := by
      rcases List.mem_pair.mp listed with rfl | rfl
      · exact closed_of_loop (by decide) draws unmarked model kept
      · exact closed_of_loop (by decide) draws unmarked model kept
    exact ⟨draws.answered_iff.mpr closed.answered, closed.even⟩

/-- The sides of a loop around the middle of the first three columns. -/
def ringSides : List (Int × Int × Side) :=
  [(0, 0, .right), (0, 0, .down), (0, 1, .left), (0, 1, .right), (0, 2, .left), (0, 2, .down), (1, 0, .up),
    (1, 0, .down), (1, 2, .up), (1, 2, .down), (2, 0, .up), (2, 0, .right), (2, 1, .left), (2, 1, .right),
    (2, 2, .left), (2, 2, .up)]

def ringCourse : Course 3 4 := .ofList ringSides (by decide)

theorem sidesOfLoop_agree_ring : ∃ world,
    (sidesOfLoop none (some (.negated "black"))).Model (.ofCourse Relation.passes ringCourse) world ∧
      ¬ IsOutside world 1 1 ∧ IsOutside world 1 3 ∧
      (sidesOfLoop none (some (.negated "black"))).Violated world := by
  have draws : (World.ofCourse Relation.passes ringCourse).Draws Relation.passes ringCourse :=
    World.ofCourse_draws (by decide) ringCourse
  have fresh : ∀ fact, World.ofCourse Relation.passes ringCourse fact → fact.relation ≠ outsideLoop := by
    intro fact given
    rcases World.ofCourse_relation given with same | same <;> rw [same] <;> decide
  have answered : ¬ sidesAnswered.Violated (World.ofCourse Relation.passes ringCourse) :=
    answered_ofList (by decide)
  have even : ∀ row col, InGrid 3 4 row col → Even (Side.all.countP (ringCourse.passes row col)) := by
    intro row col inGrid
    obtain ⟨⟨_, _⟩, _, _⟩ := inGrid
    rcases (by omega : row = 0 ∨ row = 1 ∨ row = 2) with rfl | rfl | rfl <;>
      rcases (by omega : col = 0 ∨ col = 1 ∨ col = 2 ∨ col = 3) with rfl | rfl | rfl | rfl <;> decide
  obtain ⟨⟨world, model, _⟩, each, _⟩ :=
    sidesOfLoop_agree ringCourse (.ofCourse Relation.passes ringCourse) none (some (.negated "black")) draws fresh
  obtain ⟨flags, violated_iff, closed⟩ := each world model
  have middle : ¬ IsOutside world 1 1 := by
    rw [flags 1 1 (by decide)]
    decide
  have free : ringCourse.Free 1 3 := ⟨by decide, by intro side; cases side <;> decide⟩
  have border := (closed answered even).2.2 1 3 free (by decide)
  refine ⟨world, model, middle, border, violated_iff.mpr (.inr ⟨_, rfl, 1, 1, by decide, ?_, middle⟩)⟩
  intro black
  have given := (model.iff_given fun defines => absurd (defines_sidesOfLoop defines) (by decide)).mp black
  rcases World.ofCourse_relation given with same | same <;> exact absurd same (by decide)

end GridPuzzle.Template
