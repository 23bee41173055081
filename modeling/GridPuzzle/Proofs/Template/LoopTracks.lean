import GridPuzzle.Proofs.Template.Course

/-!
Loops without a direction. The rules accept just those sides that pass cells of the color only, come back in the cell
behind them and have the right number in each cell of the color. Such cells lie on cycles and, where dead ends are
asked for, on paths from one dead end to another.
-/
namespace GridPuzzle.Template

variable {rows cols : Nat} {course : Course rows cols} {given world : World} {color : Color} {degrees : List Int}
  {deadEnds : Bool}

private theorem existsUnique_loop :
    ∃! world, (freePath color false ++ passes color degrees deadEnds).Model given world := by
  apply Program.existsUnique_model_of_lower [Relation.grid, Relation.passes]
  · intro relation lower defines
    rcases List.mem_pair.mp lower with rfl | rfl <;> exact absurd (defines_loop defines) (by decide)
  · intro head body statement literal member _ relation looked
    obtain ⟨sides, _, _, rfl⟩ := rule_mem_loop.mp statement
    rcases List.mem_pair.mp member with rfl | rfl
    · exact List.mem_cons.mpr (.inl (List.mem_singleton.mp looked))
    · exact List.mem_cons_of_mem _ looked

private theorem kept_iff_obeys (draws : given.Draws Relation.passes course) (named : color.name ≠ passedBy)
    (unmarked : ∀ fact, given fact → fact.relation ≠ passedBy)
    (model : (freePath color false ++ passes color degrees deadEnds).Model given world) :
    ¬ (freePath color false ++ passes color degrees deadEnds).Violated world ↔
      course.Obeys (Colored given color) (IsDeadEnd given deadEnds) degrees := by
  have colored : Colored world color = Colored given color := by
    funext cell
    exact propext (Color.matches_of_model model fun defines => named (defines_loop defines))
  have ends : IsDeadEnd world deadEnds = IsDeadEnd given deadEnds := by
    funext cell
    refine propext (and_congr_right fun _ => model.iff_given fun defines => ?_)
    exact absurd (defines_loop defines) (show deadEnd ≠ passedBy by decide)
  rw [loop_kept_iff draws unmarked model, colored, ends]

/-- Whatever sides, colors and dead ends are given, the rules have one model. It keeps all constraints exactly if
sides are on cells of the color only, each is answered by the opposite side of a neighbor, dead ends have one side, and
all other cells of the color have two, or, with crossings, two or four. Without crossings, the cells of the color then
split into paths, whose ends are the dead ends, and cycles. -/
theorem tracks_agree {rows cols : Nat} (course : Course rows cols) (given : World) (color : Color)
    (deadEnds : Bool) (draws : given.Draws Relation.passes course) (named : color.name ≠ passedBy)
    (unmarked : ∀ fact, given fact → fact.relation ≠ passedBy) :
    (∀ entry ∈ [(simpleLoop color deadEnds, [2]), (crossingLoop color deadEnds, [2, 4])],
      (∃! world, (freePath color false ++ entry.1).Model given world) ∧
      ∀ world, (freePath color false ++ entry.1).Model given world →
        (¬ (freePath color false ++ entry.1).Violated world ↔
          course.Obeys (Colored given color) (IsDeadEnd given deadEnds) entry.2)) ∧
    ∀ world, (freePath color false ++ simpleLoop color deadEnds).Model given world →
      ¬ (freePath color false ++ simpleLoop color deadEnds).Violated world →
      ∃ paths cycles, Splits (OnGrid rows cols (Colored given color)) (paths ++ cycles) ∧
        (∀ path ∈ paths, IsPath course.Links path) ∧ (∀ cycle ∈ cycles, IsCycle course.Links cycle) ∧
        (∀ cell, OnGrid rows cols (IsDeadEnd given deadEnds) cell ↔
          ∃ path ∈ paths, path.head? = some cell ∨ path.getLast? = some cell) ∧
        (deadEnds = false → paths = []) := by
  refine ⟨fun entry listed => ?_, fun world model kept => ?_⟩
  · rcases List.mem_pair.mp listed with rfl | rfl
    · exact ⟨existsUnique_loop, fun world model => kept_iff_obeys draws named unmarked model⟩
    · exact ⟨existsUnique_loop, fun world model => kept_iff_obeys draws named unmarked model⟩
  · have obeys := (kept_iff_obeys draws named unmarked model).mp kept
    obtain ⟨paths, cycles, splits, isPath, isCycle, isEnd⟩ := obeys.exists_splits
    refine ⟨paths, cycles, splits, isPath, isCycle, isEnd, fun endless => ?_⟩
    by_contra some
    obtain ⟨path, others, rfl⟩ := List.exists_cons_of_ne_nil some
    have long := (isPath path List.mem_cons_self).long
    cases path with
    | nil => cases long
    | cons first rest =>
      obtain ⟨_, wanted, _⟩ := (isEnd first).mpr ⟨first :: rest, List.mem_cons_self, .inl rfl⟩
      exact absurd (wanted.symm.trans endless) (by decide)

/-- A loop through four cells, and a path of two cells apart from it. -/
def squareAndPathSides : List (Int × Int × Side) :=
  [(0, 0, .right), (0, 0, .down), (0, 1, .left), (0, 1, .down), (1, 0, .up), (1, 0, .right), (1, 1, .up),
    (1, 1, .left), (0, 3, .down), (1, 3, .up)]

def squareAndPath : Course 2 4 := .ofList squareAndPathSides (by decide)

def passedCells : List (Int × Int) := [(0, 0), (0, 1), (1, 0), (1, 1), (0, 3), (1, 3)]

def endCells : List (Int × Int) := [(0, 3), (1, 3)]

def squareAndPathFacts : World := (World.ofCourse Relation.passes squareAndPath).join fun fact =>
  (∃ cell ∈ passedCells, fact = .cell "black" cell.1 cell.2) ∨ ∃ cell ∈ endCells, fact = .cell deadEnd cell.1 cell.2

private theorem squareAndPath_apart {fact : Fact} (given : squareAndPathFacts fact) :
    fact.relation ∈ [Relation.grid, Relation.passes, "black", deadEnd] := by
  rcases given with drawn | ⟨cell, _, rfl⟩ | ⟨cell, _, rfl⟩
  · rcases World.ofCourse_relation drawn with same | same <;> rw [same] <;> decide
  · exact (by decide : "black" ∈ [Relation.grid, Relation.passes, "black", deadEnd])
  · exact (by decide : deadEnd ∈ [Relation.grid, Relation.passes, "black", deadEnd])

private theorem squareAndPath_cell {name : String} (other : name ≠ Relation.grid ∧ name ≠ Relation.passes)
    (cell : Int × Int) : squareAndPathFacts (.cell name cell.1 cell.2) ↔
      name = "black" ∧ cell ∈ passedCells ∨ name = deadEnd ∧ cell ∈ endCells := by
  have undrawn : ¬ World.ofCourse Relation.passes squareAndPath (.cell name cell.1 cell.2) :=
    fun drawn => (World.ofCourse_relation drawn).elim other.1 other.2
  rw [squareAndPathFacts, World.join, or_iff_right undrawn]
  simp only [Fact.cell_inj, ← Prod.ext_iff, exists_eq_right', exists_and_left, and_left_comm]

theorem tracks_agree_squareAndPath : ∃ world,
    (freePath (.positive "black") false ++ simpleLoop (.positive "black") true).Model squareAndPathFacts world ∧
      ¬ (freePath (.positive "black") false ++ simpleLoop (.positive "black") true).Violated world ∧
      ∃ paths cycles, Splits (OnGrid 2 4 (Colored squareAndPathFacts (.positive "black"))) (paths ++ cycles) ∧
        (∀ path ∈ paths, IsPath squareAndPath.Links path) ∧ (∀ cycle ∈ cycles, IsCycle squareAndPath.Links cycle) ∧
        ∃ path ∈ paths, path.head? = some (0, 3) ∨ path.getLast? = some (0, 3) := by
  have draws : squareAndPathFacts.Draws Relation.passes squareAndPath := by
    refine (World.ofCourse_draws (by decide) squareAndPath).join fun fact given => ?_
    rcases given with ⟨_, _, rfl⟩ | ⟨_, _, rfl⟩
    · exact (by decide : "black" ≠ Relation.grid ∧ "black" ≠ Relation.passes)
    · exact (by decide : deadEnd ≠ Relation.grid ∧ deadEnd ≠ Relation.passes)
  have unmarked : ∀ fact, squareAndPathFacts fact → fact.relation ≠ passedBy := by
    intro fact given same
    have listed := squareAndPath_apart given
    rw [same] at listed
    exact absurd listed (by decide)
  have black (cell : Int × Int) : Colored squareAndPathFacts (.positive "black") cell ↔ cell ∈ passedCells :=
    (squareAndPath_cell (by decide) cell).trans (by simp [deadEnd])
  have ends (cell : Int × Int) : IsDeadEnd squareAndPathFacts true cell ↔ cell ∈ endCells :=
    (and_iff_right rfl).trans ((squareAndPath_cell (by decide) cell).trans (by simp [deadEnd]))
  have obeys : squareAndPath.Obeys (Colored squareAndPathFacts (.positive "black"))
      (IsDeadEnd squareAndPathFacts true) [2] := by
    constructor
    · intro cell side passed
      have all : ∀ place ∈ squareAndPathSides, (place.1, place.2.1) ∈ passedCells := by decide
      exact (black cell).mpr (all _ (of_decide_eq_true passed))
    · intro cell side passed
      have all : ∀ place ∈ squareAndPathSides, ((place.2.2.behind (place.1, place.2.1)).1,
          (place.2.2.behind (place.1, place.2.1)).2, place.2.2.opposite) ∈ squareAndPathSides := by decide
      have answered := decide_eq_true (all _ (of_decide_eq_true passed))
      exact ⟨squareAndPath.inside _ _ _ answered, answered⟩
    · intro cell ended
      have all : ∀ cell ∈ endCells, cell ∈ passedCells ∧ squareAndPath.degree cell.1 cell.2 = 1 := by decide
      rw [black]
      exact all cell ((ends cell).mp ended.2)
    · intro cell colored notEnd
      have all : ∀ cell ∈ passedCells, cell ∉ endCells → (squareAndPath.degree cell.1 cell.2 : Int) ∈ [(2 : Int)] := by
        decide
      exact all cell ((black cell).mp colored.2) fun listed => notEnd ((ends cell).mpr listed)
  obtain ⟨each, splits⟩ :=
    tracks_agree squareAndPath squareAndPathFacts (.positive "black") true draws (by decide) unmarked
  obtain ⟨⟨world, model, _⟩, kept_iff⟩ := each _ List.mem_cons_self
  have kept := (kept_iff world model).mpr obeys
  obtain ⟨paths, cycles, splits, isPath, isCycle, isEnd, _⟩ := splits world model kept
  refine ⟨world, model, kept, paths, cycles, splits, isPath, isCycle, ?_⟩
  exact (isEnd (0, 3)).mp ⟨by decide, (ends (0, 3)).mpr (by decide)⟩

end GridPuzzle.Template
