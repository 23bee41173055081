import GridPuzzle.Board.Occurrence
import GridPuzzle.Proofs.Board.Facts
import GridPuzzle.Proofs.Polyomino.Normal

/-!
Where shapes occur. Placed at a root, a shape lies on shaded cells that hold together, and if it is not
loose, no other shaded cell touches it. The search finds all roots at which this is so.
-/
namespace GridPuzzle

namespace Cell

private theorem sharesSide_congr {a b a' b' : Cell} (rows : a.row.val - b.row.val = a'.row.val - b'.row.val)
    (cols : a.col.val - b.col.val = a'.col.val - b'.col.val) : a.sharesSide b = a'.sharesSide b' := by
  unfold sharesSide Coord.sub
  rw [rows, cols]

private theorem sharesCorner_congr {a b a' b' : Cell} (rows : a.row.val - b.row.val = a'.row.val - b'.row.val)
    (cols : a.col.val - b.col.val = a'.col.val - b'.col.val) : a.sharesCorner b = a'.sharesCorner b' := by
  unfold sharesCorner Coord.sub
  rw [rows, cols]

/-- Whether two cells touch depends on how they lie to each other only. -/
theorem touches_shift (kind : Adjacency) {root a b a' b' : Cell} (first : root.shift a = .ok a')
    (second : root.shift b = .ok b') : kind.touches a' b' = kind.touches a b := by
  have moved := shift_eq_ok.mp first
  have moved' := shift_eq_ok.mp second
  have rows : a'.row.val - b'.row.val = a.row.val - b.row.val := by omega
  have cols : a'.col.val - b'.col.val = a.col.val - b.col.val := by omega
  unfold Adjacency.touches
  rw [sharesSide_congr rows cols, sharesCorner_congr rows cols]

theorem near_shift {kind : Adjacency} {root a b a' b' : Cell} (first : root.shift a = .ok a')
    (second : root.shift b = .ok b') : kind.Near a' b' ↔ kind.Near a b := by
  have moved := shift_eq_ok.mp first
  have moved' := shift_eq_ok.mp second
  cases kind <;> simp only [Adjacency.Near] <;> omega

theorem mem_steps {cells : List Cell} {step : Cell × Cell} :
    step ∈ steps cells ↔ step.1 ∈ cells ∧ step.2 ∈ surroundings := by
  obtain ⟨cell, offset⟩ := step
  simp [steps]

theorem mem_pairs_or {cells : List Cell} {a b : Cell} (inA : a ∈ cells) (inB : b ∈ cells)
    (different : a ≠ b) : (a, b) ∈ pairs cells ∨ (b, a) ∈ pairs cells := by
  induction cells with
  | nil => cases inA
  | cons head rest ih =>
    simp only [pairs, List.mem_append, List.mem_map, Prod.mk.injEq]
    rcases List.mem_cons.mp inA with rfl | laterA <;> rcases List.mem_cons.mp inB with rfl | laterB
    · exact absurd rfl different
    · exact .inl (.inl ⟨b, laterB, rfl, rfl⟩)
    · exact .inr (.inl ⟨a, laterA, rfl, rfl⟩)
    · exact (ih laterA laterB).imp .inr .inr

theorem mem_of_mem_pairs {cells : List Cell} {pair : Cell × Cell} (member : pair ∈ pairs cells) :
    pair.1 ∈ cells ∧ pair.2 ∈ cells := by
  induction cells with
  | nil => cases member
  | cons first rest ih =>
    rw [pairs, List.mem_append, List.mem_map] at member
    rcases member with ⟨second, inside, rfl⟩ | later
    · exact ⟨List.mem_cons_self, List.mem_cons_of_mem _ inside⟩
    · exact ⟨List.mem_cons_of_mem _ (ih later).1, List.mem_cons_of_mem _ (ih later).2⟩

theorem forall₂_pairs {relation : Cell → Cell → Prop} {cells others : List Cell}
    (related : List.Forall₂ relation cells others) :
    List.Forall₂ (fun pair other => relation pair.1 other.1 ∧ relation pair.2 other.2)
      (pairs cells) (pairs others) := by
  induction related with
  | nil => exact .nil
  | cons head tail ih =>
    refine List.rel_append ?_ ih
    rw [List.forall₂_map_left_iff, List.forall₂_map_right_iff]
    exact tail.imp fun _ _ related => ⟨head, related⟩

end Cell

namespace Board

variable {board : Board} {kind : Adjacency} {loose : Bool} {shape : Polyomino} {row col : Int}

/-- The shape lies at a row and a column. -/
structure Occurs (board : Board) (kind : Adjacency) (loose : Bool) (row col : Int)
    (shape : Polyomino) : Prop where
  shaded : ∀ cell ∈ shape.cells, board.Shades (row + cell.row.val) (col + cell.col.val)
  joined : ∀ pair ∈ Cell.pairs shape.cells, kind.Near pair.1 pair.2 →
    board.Adjoins kind (row + pair.1.row.val) (col + pair.1.col.val) (row + pair.2.row.val)
      (col + pair.2.col.val)
  alone : loose = false → ∀ step ∈ Cell.steps shape.cells,
    ¬ shape.Has (step.1.row.val + step.2.row.val, step.1.col.val + step.2.col.val) →
    board.Adjoins kind (row + step.1.row.val) (col + step.1.col.val)
      (row + (step.1.row.val + step.2.row.val)) (col + (step.1.col.val + step.2.col.val)) →
    ¬ board.Shades (row + (step.1.row.val + step.2.row.val)) (col + (step.1.col.val + step.2.col.val))

theorem Occurs.covers (occurs : board.Occurs kind loose row col shape) (normal : shape.Normal) :
    board.Covers row col := by
  obtain ⟨origin, member, zero⟩ := normal.has_origin
  obtain ⟨rows, cols⟩ := Prod.mk.inj zero
  have shades := occurs.shaded origin member
  rw [rows, cols, Int.add_zero, Int.add_zero] at shades
  exact shades.covers

section Shifted

variable {root own place other place' : Cell}

theorem shades_shift (placed : root.shift own = .ok place) :
    board.Shades (root.row.val + own.row.val) (root.col.val + own.col.val) ↔ board.isShaded place = true := by
  have moved := Cell.shift_eq_ok.mp placed
  rw [← moved.1, ← moved.2, shades_cell]

theorem adjoins_shift (placed : root.shift own = .ok place) (placed' : root.shift other = .ok place') :
    board.Adjoins kind (root.row.val + own.row.val) (root.col.val + own.col.val)
        (root.row.val + other.row.val) (root.col.val + other.col.val) ↔
      board.adjacent place place' kind = .ok true := by
  have moved := Cell.shift_eq_ok.mp placed
  have moved' := Cell.shift_eq_ok.mp placed'
  rw [← moved.1, ← moved.2, ← moved'.1, ← moved'.2, adjoins_cells]

end Shifted

private theorem holdTogether_iff {pairs : List (Cell × Cell)} {answer : Bool}
    (held : board.holdTogether kind pairs = .ok answer) : answer = true ↔
      ∀ pair ∈ pairs, kind.Near pair.1 pair.2 → board.adjacent pair.1 pair.2 kind = .ok true := by
  induction pairs with
  | nil =>
    cases held
    simp
  | cons pair rest ih =>
    obtain ⟨a, b⟩ := pair
    obtain ⟨touches, decided, after⟩ := Outcome.bind_eq_ok.mp held
    have near_iff : _ ↔ kind.Near a b := Adjacency.near_of_touches decided
    rw [List.forall_mem_cons]
    cases touches with
    | false =>
      have far : ¬ kind.Near a b := fun near => Bool.noConfusion (near_iff.mpr near)
      rw [ih after]
      simp [far]
    | true =>
      have near : kind.Near a b := near_iff.mp rfl
      obtain ⟨linked, adjacent, after⟩ := Outcome.bind_eq_ok.mp after
      have adjacent_iff : board.adjacent a b kind = .ok true ↔ linked = true := by
        rw [show board.adjacent a b kind = .ok linked from adjacent, Except.ok.injEq]
      cases linked with
      | false =>
        cases after
        simp [near, adjacent_iff]
      | true =>
        rw [ih after]
        simp [adjacent_iff]

private theorem exists_holdTogether (fixed : kind.Fixed) {pairs : List (Cell × Cell)}
    (touching : ∀ pair ∈ pairs, ∃ answer, kind.touches pair.1 pair.2 = .ok answer) :
    ∃ answer, board.holdTogether kind pairs = .ok answer := by
  induction pairs with
  | nil => exact ⟨true, rfl⟩
  | cons pair rest ih =>
    obtain ⟨a, b⟩ := pair
    obtain ⟨others, found⟩ := ih fun other member => touching other (List.mem_cons_of_mem _ member)
    obtain ⟨touches, decided⟩ := touching (a, b) List.mem_cons_self
    rw [holdTogether, Outcome.bind_of_ok decided]
    cases touches with
    | false => exact ⟨others, found⟩
    | true =>
      have near : kind.Near a b := (Adjacency.near_of_touches decided).mp rfl
      have close := near.close
      obtain ⟨linked, adjacent⟩ := board.exists_adjacent (a := a) (b := b) fixed (by omega)
      rw [if_pos rfl, Outcome.bind_of_ok adjacent]
      cases linked with
      | false => exact ⟨false, rfl⟩
      | true => exact ⟨others, found⟩

private theorem isTouched_iff {cells : List Cell} {steps : List (Cell × Cell)} {answer : Bool}
    (searched : board.isTouched kind cells steps = .ok answer) : answer = true ↔
      ∃ step ∈ steps, ∃ next, step.1.shift step.2 = .ok next ∧ next ∉ cells ∧
        board.isShaded next = true ∧ board.adjacent step.1 next kind = .ok true := by
  induction steps with
  | nil =>
    cases searched
    simp
  | cons step rest ih =>
    obtain ⟨cell, offset⟩ := step
    obtain ⟨next, stepped, after⟩ := Outcome.bind_eq_ok.mp searched
    simp only [List.exists_mem_cons_iff, stepped, Except.ok.injEq, ← and_assoc]
    rcases Outcome.ite_eq_ok.mp after with ⟨outside, after⟩ | ⟨inside, after⟩
    · obtain ⟨linked, adjacent, after⟩ := Outcome.bind_eq_ok.mp after
      have adjacent_iff : board.adjacent cell next kind = .ok true ↔ linked = true := by
        rw [show board.adjacent cell next kind = .ok linked from adjacent, Except.ok.injEq]
      cases linked with
      | true =>
        cases after
        simp [outside, adjacent_iff]
      | false =>
        rw [ih after]
        simp [adjacent_iff, and_assoc]
    · rw [ih after]
      simp [inside, and_assoc]

private theorem exists_isTouched (bounded : board.Bounded) (fixed : kind.Fixed) (cells : List Cell)
    {steps : List (Cell × Cell)}
    (inside : ∀ step ∈ steps, board.contains step.1 = true ∧ step.2 ∈ Cell.surroundings) :
    ∃ answer, board.isTouched kind cells steps = .ok answer := by
  induction steps with
  | nil => exact ⟨false, rfl⟩
  | cons step rest ih =>
    obtain ⟨cell, offset⟩ := step
    obtain ⟨others, found⟩ := ih fun other member => inside other (List.mem_cons_of_mem _ member)
    obtain ⟨onBoard, around⟩ := inside (cell, offset) List.mem_cons_self
    obtain ⟨next, stepped⟩ : ∃ next, cell.shift offset = .ok next := bounded.exists_step onBoard around
    have small := small_of_mem_surroundings offset around
    have moved := Cell.shift_eq_ok.mp stepped
    obtain ⟨linked, adjacent⟩ := board.exists_adjacent (a := cell) (b := next) fixed (by omega)
    rw [isTouched, Outcome.bind_of_ok stepped]
    by_cases outside : next ∉ cells ∧ board.isShaded next = true
    · rw [if_pos outside, Outcome.bind_of_ok adjacent]
      cases linked with
      | true => exact ⟨true, rfl⟩
      | false => exact ⟨others, found⟩
    · rw [if_neg outside]
      exact ⟨others, found⟩

section Root

variable {root : Cell} {cells : List Cell}
  (mapped : List.Forall₂ (fun cell place => root.shift cell = .ok place) shape.cells cells)
include mapped

private theorem shaded_iff : cells.all board.isShaded = true ↔
    ∀ cell ∈ shape.cells, board.Shades (root.row.val + cell.row.val) (root.col.val + cell.col.val) := by
  rw [List.all_eq_true]
  apply Iff.intro
  · intro all cell member
    obtain ⟨place, inside, placed⟩ := Outcome.mem_of_forall₂ mapped.flip member
    exact (shades_shift placed).mpr (all place inside)
  · intro shaded place member
    obtain ⟨cell, inside, placed⟩ := Outcome.mem_of_forall₂ mapped member
    exact (shades_shift placed).mp (shaded cell inside)

private theorem joined_iff : (∀ pair ∈ Cell.pairs cells, kind.Near pair.1 pair.2 →
      board.adjacent pair.1 pair.2 kind = .ok true) ↔
    ∀ pair ∈ Cell.pairs shape.cells, kind.Near pair.1 pair.2 →
      board.Adjoins kind (root.row.val + pair.1.row.val) (root.col.val + pair.1.col.val)
        (root.row.val + pair.2.row.val) (root.col.val + pair.2.col.val) := by
  have paired := Cell.forall₂_pairs mapped
  apply Iff.intro
  · intro linked pair member near
    obtain ⟨placed, inside, first, second⟩ := Outcome.mem_of_forall₂ paired.flip member
    exact (adjoins_shift first second).mpr (linked placed inside ((Cell.near_shift first second).mpr near))
  · intro joined pair member near
    obtain ⟨own, inside, first, second⟩ := Outcome.mem_of_forall₂ paired member
    exact (adjoins_shift first second).mp (joined own inside ((Cell.near_shift first second).mp near))

private theorem touched_iff : (∃ step ∈ Cell.steps cells, ∃ next, step.1.shift step.2 = .ok next ∧
      next ∉ cells ∧ board.isShaded next = true ∧ board.adjacent step.1 next kind = .ok true) ↔
    ∃ step ∈ Cell.steps shape.cells,
      ¬ shape.Has (step.1.row.val + step.2.row.val, step.1.col.val + step.2.col.val) ∧
      board.Adjoins kind (root.row.val + step.1.row.val) (root.col.val + step.1.col.val)
        (root.row.val + (step.1.row.val + step.2.row.val))
        (root.col.val + (step.1.col.val + step.2.col.val)) ∧
      board.Shades (root.row.val + (step.1.row.val + step.2.row.val))
        (root.col.val + (step.1.col.val + step.2.col.val)) := by
  have own_iff {row col : Int} {next : Cell} (rows : next.row.val = root.row.val + row)
      (cols : next.col.val = root.col.val + col) : next ∈ cells ↔ shape.Has (row, col) := by
    rw [Outcome.mem_iff_of_forall₂ mapped]
    refine exists_congr fun cell => and_congr_right fun _ => ?_
    rw [Cell.shift_eq_ok, Cell.point, Prod.mk.injEq]
    omega
  apply Iff.intro
  · intro touched
    obtain ⟨⟨place, offset⟩, member, next, stepped, outside, shaded, adjacent⟩ := touched
    obtain ⟨inside, around⟩ := Cell.mem_steps.mp member
    obtain ⟨cell, own, placed⟩ := Outcome.mem_of_forall₂ mapped inside
    have moved := Cell.shift_eq_ok.mp placed
    have movedOn := Cell.shift_eq_ok.mp stepped
    have rows : next.row.val = root.row.val + (cell.row.val + offset.row.val) := by dsimp only at *; omega
    have cols : next.col.val = root.col.val + (cell.col.val + offset.col.val) := by dsimp only at *; omega
    rw [own_iff rows cols] at outside
    rw [← shades_cell, rows, cols] at shaded
    rw [← adjoins_cells, rows, cols, moved.1, moved.2] at adjacent
    exact ⟨(cell, offset), Cell.mem_steps.mpr ⟨own, around⟩, outside, adjacent, shaded⟩
  · intro touched
    obtain ⟨⟨cell, offset⟩, member, outside, adjoins, shades⟩ := touched
    obtain ⟨own, around⟩ := Cell.mem_steps.mp member
    obtain ⟨place, inside, placed⟩ := Outcome.mem_of_forall₂ mapped.flip own
    obtain ⟨next, shaded, rows, cols⟩ := shades
    have moved := Cell.shift_eq_ok.mp placed
    rw [← own_iff rows cols] at outside
    rw [← rows, ← cols, ← moved.1, ← moved.2, adjoins_cells] at adjoins
    refine ⟨(place, offset), Cell.mem_steps.mpr ⟨inside, around⟩, next, ?_, outside, shaded, adjoins⟩
    rw [Cell.shift_eq_ok]
    dsimp only at *
    omega

private theorem occurs_iff : board.Occurs kind loose root.row.val root.col.val shape ↔
    cells.all board.isShaded = true ∧
    (∀ pair ∈ Cell.pairs cells, kind.Near pair.1 pair.2 → board.adjacent pair.1 pair.2 kind = .ok true) ∧
    (loose = false → ¬ ∃ step ∈ Cell.steps cells, ∃ next, step.1.shift step.2 = .ok next ∧
      next ∉ cells ∧ board.isShaded next = true ∧ board.adjacent step.1 next kind = .ok true) := by
  rw [shaded_iff mapped, joined_iff mapped, touched_iff mapped]
  refine ⟨fun occurs => ⟨occurs.shaded, occurs.joined, fun strict touched => ?_⟩, fun parts => ?_⟩
  · obtain ⟨step, member, outside, adjoins, shades⟩ := touched
    exact occurs.alone strict step member outside adjoins shades
  · obtain ⟨shaded, joined, alone⟩ := parts
    refine ⟨shaded, joined, fun strict step member outside adjoins shades => ?_⟩
    exact alone strict ⟨step, member, outside, adjoins, shades⟩

end Root

/-- What the search needs of a shape: its cells can be told apart, and it can be placed at all roots. -/
structure Placeable (board : Board) (kind : Adjacency) (shape : Polyomino) : Prop where
  distances : ∀ pair ∈ Cell.pairs shape.cells, ∃ answer, kind.touches pair.1 pair.2 = .ok answer
  placed : ∀ root, board.contains root = true → ∀ cell ∈ shape.cells, ∃ place, root.shift cell = .ok place

/-- The search for the shape stays within the coordinates: it can be placed at all roots, and where it lies on
shaded cells, its cells can be told apart. -/
structure Searchable (board : Board) (kind : Adjacency) (shape : Polyomino) : Prop where
  placed : ∀ root, board.contains root = true → ∀ cell ∈ shape.cells, ∃ place, root.shift cell = .ok place
  measured : ∀ root : Cell,
    (∀ cell ∈ shape.cells, board.Shades (root.row.val + cell.row.val) (root.col.val + cell.col.val)) →
    ∀ pair ∈ Cell.pairs shape.cells, ∃ answer, kind.touches pair.1 pair.2 = .ok answer

private theorem steps_inside {cells : List Cell} (shaded : cells.all board.isShaded = true) :
    ∀ step ∈ Cell.steps cells, board.contains step.1 = true ∧ step.2 ∈ Cell.surroundings := by
  intro step member
  obtain ⟨placed, around⟩ := Cell.mem_steps.mp member
  exact ⟨contains_of_isShaded (List.all_eq_true.mp shaded _ placed), around⟩

theorem occursAt_iff {root : Cell} {answer : Bool}
    (checked : board.occursAt kind loose root shape = .ok answer) :
    answer = true ↔ board.Occurs kind loose root.row.val root.col.val shape := by
  obtain ⟨cells, built, after⟩ := Outcome.bind_eq_ok.mp checked
  rw [occurs_iff (Outcome.mapM_eq_ok.mp built)]
  rcases Outcome.ite_eq_ok.mp after with ⟨shaded, after⟩ | ⟨unshaded, after⟩
  · obtain ⟨together, held, after⟩ := Outcome.bind_eq_ok.mp after
    rw [← holdTogether_iff held]
    cases together with
    | false =>
      cases after
      simp
    | true =>
      cases loose with
      | true =>
        cases after
        simp [shaded]
      | false =>
        obtain ⟨touched, searched, after⟩ := Outcome.bind_eq_ok.mp after
        rw [← isTouched_iff searched]
        cases after
        simp [shaded]
  · cases after
    simp [unshaded]

theorem exists_occursAt (bounded : board.Bounded) (fixed : kind.Fixed) (loose : Bool) {root : Cell}
    (onBoard : board.contains root = true) (searchable : board.Searchable kind shape) :
    ∃ answer, board.occursAt kind loose root shape = .ok answer := by
  obtain ⟨cells, built⟩ := Outcome.exists_mapM_ok (searchable.placed root onBoard)
  have mapped := Outcome.mapM_eq_ok.mp built
  rw [occursAt, Outcome.bind_of_ok built]
  by_cases shaded : cells.all board.isShaded = true
  · have touching : ∀ pair ∈ Cell.pairs cells, ∃ answer, kind.touches pair.1 pair.2 = .ok answer := by
      intro pair member
      obtain ⟨own, inside, first, second⟩ := Outcome.mem_of_forall₂ (Cell.forall₂_pairs mapped) member
      rw [Cell.touches_shift kind first second]
      exact searchable.measured root ((shaded_iff mapped).mp shaded) own inside
    obtain ⟨together, held⟩ := board.exists_holdTogether fixed touching
    obtain ⟨touched, searched⟩ := exists_isTouched bounded fixed cells (steps_inside shaded)
    rw [if_pos shaded, Outcome.bind_of_ok held]
    cases together with
    | false => exact ⟨false, rfl⟩
    | true =>
      cases loose with
      | true => exact ⟨true, rfl⟩
      | false => exact ⟨!touched, Outcome.bind_of_ok searched _⟩
  · rw [if_neg shaded]
    exact ⟨false, rfl⟩

private theorem occurringAt_iff {root : Cell} {shapes : List (Polyomino × Nat)} {indices : List Nat}
    (searched : board.occurringAt kind loose root shapes = .ok indices) :
    List.Sublist indices (shapes.map Prod.snd) ∧ ∀ index, index ∈ indices ↔
      ∃ shape, (shape, index) ∈ shapes ∧ board.Occurs kind loose root.row.val root.col.val shape := by
  induction shapes generalizing indices with
  | nil =>
    cases searched
    exact ⟨.slnil, by simp⟩
  | cons entry rest ih =>
    obtain ⟨shape, number⟩ := entry
    obtain ⟨here, checked, after⟩ := Outcome.bind_eq_ok.mp searched
    obtain ⟨others, found, same⟩ := Outcome.bind_eq_ok.mp after
    obtain ⟨sublist, exact⟩ := ih found
    rw [← Outcome.pure_eq_ok.mp same]
    have here_iff := occursAt_iff checked
    have split (index : Nat) : (∃ other, (other, index) ∈ (shape, number) :: rest ∧
        board.Occurs kind loose root.row.val root.col.val other) ↔
          (index = number ∧ here = true) ∨ index ∈ others := by
      rw [exact, here_iff]
      simp only [List.mem_cons, Prod.mk.injEq, or_and_right, exists_or, and_assoc, exists_eq_left]
    refine ⟨?_, fun index => ?_⟩
    · cases here with
      | true => exact sublist.cons_cons number
      | false => exact sublist.cons number
    · rw [split]
      cases here <;> simp

private theorem exists_occurringAt (bounded : board.Bounded) (fixed : kind.Fixed) (loose : Bool) {root : Cell}
    (onBoard : board.contains root = true) {shapes : List (Polyomino × Nat)}
    (searchable : ∀ entry ∈ shapes, board.Searchable kind entry.1) :
    ∃ indices, board.occurringAt kind loose root shapes = .ok indices := by
  induction shapes with
  | nil => exact ⟨[], rfl⟩
  | cons entry rest ih =>
    obtain ⟨shape, number⟩ := entry
    obtain ⟨others, found⟩ := ih fun other member => searchable other (List.mem_cons_of_mem _ member)
    obtain ⟨here, checked⟩ := exists_occursAt bounded fixed loose onBoard
      (searchable (shape, number) List.mem_cons_self)
    rw [occurringAt, Outcome.bind_of_ok checked, Outcome.bind_of_ok found]
    exact ⟨_, rfl⟩

private theorem occurrences_eq_ok {shapes : List Polyomino} {found : List (Cell × Nat)}
    (searched : board.occurrences shapes kind loose = .ok found) : ∃ perRoot : List (List (Cell × Nat)),
      found = perRoot.flatten ∧ List.Forall₂ (fun root pairs => ∃ indices,
        board.occurringAt kind loose root shapes.zipIdx = .ok indices ∧ pairs = indices.map (root, ·))
        board.locations perRoot := by
  obtain ⟨perRoot, built, same⟩ := Outcome.bind_eq_ok.mp searched
  refine ⟨perRoot, (Outcome.pure_eq_ok.mp same).symm, (Outcome.mapM_eq_ok.mp built).imp ?_⟩
  intro root pairs ended
  obtain ⟨indices, found, same⟩ := Outcome.bind_eq_ok.mp ended
  exact ⟨indices, found, (Outcome.pure_eq_ok.mp same).symm⟩

theorem occurrences_iff {shapes : List Polyomino} {found : List (Cell × Nat)}
    (searched : board.occurrences shapes kind loose = .ok found) (root : Cell)
    (index : Nat) : (root, index) ∈ found ↔ board.contains root = true ∧ ∃ shape,
      shapes[index]? = some shape ∧ board.Occurs kind loose root.row.val root.col.val shape := by
  obtain ⟨perRoot, rfl, listed⟩ := occurrences_eq_ok searched
  have numbered (shape : Polyomino) : (shape, index) ∈ shapes.zipIdx ↔ shapes[index]? = some shape :=
    List.mem_zipIdx_iff_getElem?
  rw [List.mem_flatten]
  apply Iff.intro
  · intro found
    obtain ⟨pairs, member, inPairs⟩ := found
    obtain ⟨own, inside, indices, searched, rfl⟩ := Outcome.mem_of_forall₂ listed member
    obtain ⟨number, isNumber, same⟩ := List.mem_map.mp inPairs
    obtain ⟨rfl, rfl⟩ := Prod.mk.inj same
    obtain ⟨shape, isShape, occurs⟩ := ((occurringAt_iff searched).2 number).mp isNumber
    exact ⟨mem_locations.mp inside, shape, (numbered shape).mp isShape, occurs⟩
  · intro occurs
    obtain ⟨onBoard, shape, isShape, occurs⟩ := occurs
    obtain ⟨_, member, indices, searched, rfl⟩ :=
      Outcome.mem_of_forall₂ listed.flip (mem_locations.mpr onBoard)
    refine ⟨_, member, List.mem_map.mpr ⟨index, ?_, rfl⟩⟩
    exact ((occurringAt_iff searched).2 index).mpr ⟨shape, (numbered shape).mpr isShape, occurs⟩

/-- Of two occurrences the one at the earlier cell comes first, and at one cell that of the earlier shape. -/
def Precedes (first second : Cell × Nat) : Prop :=
  first.1 < second.1 ∨ first.1 = second.1 ∧ first.2 < second.2

instance : Std.Irrefl Precedes := by
  refine ⟨fun pair before => ?_⟩
  rcases before with less | ⟨_, less⟩
  · exact Cell.not_lt_self _ less
  · exact Nat.lt_irrefl _ less

instance : Std.Antisymm Precedes := by
  refine ⟨fun first second before after => ?_⟩
  simp only [Precedes, Cell.lt_iff, Cell.ext_iff] at before after
  omega

theorem occurrences_ordered {shapes : List Polyomino} {found : List (Cell × Nat)}
    (searched : board.occurrences shapes kind loose = .ok found) :
    found.Pairwise Precedes := by
  obtain ⟨perRoot, rfl, listed⟩ := occurrences_eq_ok searched
  have increasing := locations_increasing board
  clear searched
  generalize board.locations = roots at listed increasing
  induction listed with
  | nil => exact .nil
  | @cons root pairs roots perRoot head tail ih =>
    obtain ⟨indices, searched, rfl⟩ := head
    obtain ⟨first, others⟩ := List.pairwise_cons.mp increasing
    refine List.pairwise_append.mpr ⟨?_, ih others, ?_⟩
    · have numbers : indices.Pairwise (· < ·) := by
        refine List.Pairwise.sublist (occurringAt_iff searched).1 ?_
        rw [List.zipIdx_map_snd]
        exact List.pairwise_lt_range'
      exact numbers.map _ fun first second less => .inr ⟨rfl, less⟩
    · intro own inPairs later inLater
      obtain ⟨_, _, rfl⟩ := List.mem_map.mp inPairs
      obtain ⟨pairs, member, inside⟩ := List.mem_flatten.mp inLater
      obtain ⟨other, isOther, indices, _, rfl⟩ := Outcome.mem_of_forall₂ tail member
      obtain ⟨_, _, rfl⟩ := List.mem_map.mp inside
      exact .inl (first other isOther)

theorem exists_occurrences (bounded : board.Bounded) (fixed : kind.Fixed) (loose : Bool)
    {shapes : List Polyomino} (searchable : ∀ shape ∈ shapes, board.Searchable kind shape) :
    ∃ found, board.occurrences shapes kind loose = .ok found := by
  have each : ∀ entry ∈ shapes.zipIdx, board.Searchable kind entry.1 := by
    intro entry member
    exact searchable _ (List.fst_mem_of_mem_zipIdx member)
  have perRoot : ∀ root ∈ board.locations, ∃ pairs : List (Cell × Nat), (do
      let indices ← board.occurringAt kind loose root shapes.zipIdx
      pure (indices.map (root, ·)) : Except Error _) = .ok pairs := by
    intro root member
    obtain ⟨indices, found⟩ := exists_occurringAt bounded fixed loose (mem_locations.mp member) each
    exact ⟨_, Outcome.bind_of_ok found _⟩
  obtain ⟨found, built⟩ := Outcome.exists_mapM_ok perRoot
  exact ⟨found.flatten, Outcome.bind_of_ok built _⟩

private theorem occursAt_of_occurringAt {root : Cell} {shapes : List (Polyomino × Nat)} {indices : List Nat}
    (searched : board.occurringAt kind loose root shapes = .ok indices) :
    ∀ entry ∈ shapes, ∃ answer, board.occursAt kind loose root entry.1 = .ok answer := by
  induction shapes generalizing indices with
  | nil => exact nofun
  | cons entry rest ih =>
    obtain ⟨here, checked, after⟩ := Outcome.bind_eq_ok.mp searched
    obtain ⟨others, found, _⟩ := Outcome.bind_eq_ok.mp after
    exact List.forall_mem_cons.mpr ⟨⟨here, checked⟩, ih found⟩

/-- A search that returns has placed each shape at each root, whatever is shaded there. -/
theorem placed_of_occurrences {shapes : List Polyomino} {found : List (Cell × Nat)}
    (searched : board.occurrences shapes kind loose = .ok found) (member : shape ∈ shapes) {root cell : Cell}
    (onBoard : board.contains root = true) (inside : cell ∈ shape.cells) :
    ∃ place, root.shift cell = .ok place := by
  obtain ⟨_, _, listed⟩ := occurrences_eq_ok searched
  obtain ⟨_, _, indices, ended, _⟩ := Outcome.mem_of_forall₂ listed.flip (mem_locations.mpr onBoard)
  obtain ⟨index, isShape⟩ := List.mem_iff_getElem?.mp member
  obtain ⟨_, checked⟩ := occursAt_of_occurringAt ended (shape, index) (List.mem_zipIdx_iff_getElem?.mpr isShape)
  obtain ⟨cells, built, _⟩ := Outcome.bind_eq_ok.mp checked
  obtain ⟨place, _, placed⟩ := Outcome.mem_of_forall₂ (Outcome.mapM_eq_ok.mp built).flip inside
  exact ⟨place, placed⟩

section Refused

variable (fixed : kind.Fixed)
include fixed

private theorem holdTogether_refusedOnly (pairs : List (Cell × Cell)) :
    Outcome.RefusedOnly Error.IsOverflow (board.holdTogether kind pairs) := by
  induction pairs with
  | nil => exact .of_ok _
  | cons pair rest ih =>
    refine .bind (kind.touches_refusedOnly pair.1 pair.2) fun touches _ => ?_
    cases touches with
    | false => exact ih
    | true =>
      refine .bind (adjacent_refusedOnly fixed pair.1 pair.2) fun linked _ => ?_
      cases linked with
      | false => exact .of_ok _
      | true => exact ih

private theorem isTouched_refusedOnly (cells : List Cell) (steps : List (Cell × Cell)) :
    Outcome.RefusedOnly Error.IsOverflow (board.isTouched kind cells steps) := by
  induction steps with
  | nil => exact .of_ok _
  | cons step rest ih =>
    refine .bind (step.1.shift_refusedOnly step.2) fun next _ => ?_
    dsimp only
    split
    · refine .bind (adjacent_refusedOnly fixed step.1 next) fun touched _ => ?_
      cases touched with
      | false => exact ih
      | true => exact .of_ok _
    · exact ih

private theorem occursAt_refusedOnly (root : Cell) (shape : Polyomino) :
    Outcome.RefusedOnly Error.IsOverflow (board.occursAt kind loose root shape) := by
  refine .bind (.mapM fun cell _ => root.shift_refusedOnly cell) fun cells _ => ?_
  split
  · refine .bind (holdTogether_refusedOnly fixed _) fun together _ => ?_
    cases together with
    | false => exact .of_ok _
    | true =>
      cases loose with
      | true => exact .of_ok _
      | false => exact .bind (isTouched_refusedOnly fixed cells _) fun _ _ => .of_ok _
  · exact .of_ok _

/-- The board tells which cells are neighbors of a fixed kind, so that only coordinates can fail a search. -/
theorem occurrences_refusedOnly (shapes : List Polyomino) :
    Outcome.RefusedOnly Error.IsOverflow (board.occurrences shapes kind loose) := by
  have perRoot (root : Cell) (entries : List (Polyomino × Nat)) :
      Outcome.RefusedOnly Error.IsOverflow (board.occurringAt kind loose root entries) := by
    induction entries with
    | nil => exact .of_ok _
    | cons entry rest ih =>
      exact .bind (occursAt_refusedOnly fixed root entry.1) fun _ _ => .bind ih fun _ _ => .of_ok _
  refine .bind (.mapM fun root _ => ?_) fun _ _ => .of_ok _
  exact .bind (perRoot root shapes.zipIdx) fun _ _ => .of_ok _

theorem occurrences_overflows {shapes : List Polyomino} (member : shape ∈ shapes) {root cell : Cell}
    (onBoard : board.contains root = true) (inside : cell ∈ shape.cells)
    (beyond : ¬ ∃ place, root.shift cell = .ok place) :
    ∃ operation, board.occurrences shapes kind loose = .error (.overflow operation) := by
  rw [(occurrences_refusedOnly fixed shapes).overflows_iff]
  intro returns
  obtain ⟨found, searched⟩ := returns
  exact beyond (placed_of_occurrences searched member onBoard inside)

end Refused

end Board

end GridPuzzle
