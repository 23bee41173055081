import GridPuzzle.Proofs.Plane

/-!
Roles of the points of a shaded set. Points that open a group or lie in its first column or row are given
their roles by the shading, and inner points by the roles around them. All shaded points have a role, and
no other point is an inner one, exactly if the set nowhere bends.
-/
namespace GridPuzzle.Plane

/-- The four roles, as the shading and each other make them. -/
structure Roles (grid shaded corner left top inner : Int → Int → Prop) : Prop where
  corner_iff : ∀ row col, corner row col ↔
    shaded row col ∧ ¬ shaded row (col - 1) ∧ ¬ shaded (row - 1) col
  left_iff : ∀ row col, left row col ↔
    shaded row col ∧ (corner (row - 1) col ∨ left (row - 1) col) ∧ ¬ shaded row (col - 1)
  top_iff : ∀ row col, top row col ↔
    shaded row col ∧ (corner row (col - 1) ∨ top row (col - 1)) ∧ ¬ shaded (row - 1) col
  inner_iff : ∀ row col, inner row col ↔
    grid row col ∧ (left row (col - 1) ∨ inner row (col - 1)) ∧ (top (row - 1) col ∨ inner (row - 1) col)

def Covered (shaded corner left top inner : Int → Int → Prop) : Prop :=
  (∀ row col, shaded row col → corner row col ∨ left row col ∨ top row col ∨ inner row col) ∧
    ∀ row col, inner row col → shaded row col

/-- The point has the role that its neighbors above and before ask for. -/
structure Due (shaded corner left top inner : Int → Int → Prop) (row col : Int) : Prop where
  isCorner : ¬ shaded row (col - 1) → ¬ shaded (row - 1) col → corner row col
  isLeft : ¬ shaded row (col - 1) → shaded (row - 1) col → left row col
  isTop : shaded row (col - 1) → ¬ shaded (row - 1) col → top row col
  isInner : shaded row (col - 1) → shaded (row - 1) col → inner row col

section Swap

variable {grid shaded corner left top inner : Int → Int → Prop} {row col : Int}

/-- With rows and columns exchanged, the first column and the first row of a group change their parts. -/
theorem Roles.swap (roles : Roles grid shaded corner left top inner) :
    Roles (fun r c => grid c r) (fun r c => shaded c r) (fun r c => corner c r) (fun r c => top c r)
      (fun r c => left c r) fun r c => inner c r where
  corner_iff row col := by rw [roles.corner_iff, and_comm (a := ¬ shaded col (row - 1))]
  left_iff row col := roles.top_iff col row
  top_iff row col := roles.left_iff col row
  inner_iff row col := by rw [roles.inner_iff, and_comm (a := left col (row - 1) ∨ inner col (row - 1))]

theorem Covered.swap (covered : Covered shaded corner left top inner) :
    Covered (fun r c => shaded c r) (fun r c => corner c r) (fun r c => top c r) (fun r c => left c r)
      fun r c => inner c r := by
  refine ⟨fun row col here => ?_, fun row col isInner => covered.2 col row isInner⟩
  rcases covered.1 col row here with isCorner | isLeft | isTop | isInner
  · exact .inl isCorner
  · exact .inr (.inr (.inl isLeft))
  · exact .inr (.inl isTop)
  · exact .inr (.inr (.inr isInner))

theorem Due.swap (due : Due shaded corner left top inner row col) :
    Due (fun r c => shaded c r) (fun r c => corner c r) (fun r c => top c r) (fun r c => left c r)
      (fun r c => inner c r) col row :=
  ⟨fun noAbove noBefore => due.isCorner noBefore noAbove, fun noAbove before => due.isTop before noAbove,
    fun above noBefore => due.isLeft noBefore above, fun above before => due.isInner before above⟩

theorem Bendless.swap (bendless : Bendless shaded) : Bendless fun r c => shaded c r :=
  fun row col down along one one' here below beside => bendless col row along down one' one here beside below

end Swap

namespace Roles

variable {grid shaded corner left top inner : Int → Int → Prop} {row col : Int}

section Windows

variable (roles : Roles grid shaded corner left top inner)
  (covered : Covered shaded corner left top inner)
include roles covered

theorem left_or_inner (here : shaded row col) (above : shaded (row - 1) col) :
    left row col ∨ inner row col := by
  rcases covered.1 row col here with isCorner | isLeft | isTop | isInner
  · exact absurd above ((roles.corner_iff row col).mp isCorner).2.2
  · exact .inl isLeft
  · exact absurd above ((roles.top_iff row col).mp isTop).2.2
  · exact .inr isInner

theorem top_or_inner (here : shaded row col) (before : shaded row (col - 1)) :
    top row col ∨ inner row col := by
  have turned := roles.swap.left_or_inner covered.swap here before
  exact turned

theorem above_of_left_or_inner (role : left row col ∨ inner row col) : shaded (row - 1) col := by
  rcases role with isLeft | isInner
  · rcases ((roles.left_iff row col).mp isLeft).2.1 with isCorner | isLeft
    · exact ((roles.corner_iff _ _).mp isCorner).1
    · exact ((roles.left_iff _ _).mp isLeft).1
  · rcases ((roles.inner_iff row col).mp isInner).2.2 with isTop | isInner
    · exact ((roles.top_iff _ _).mp isTop).1
    · exact covered.2 _ _ isInner

-- each point of a window of four is shaded if the others are
theorem first_shaded (here : shaded row col) (above : shaded (row - 1) col)
    (before : shaded row (col - 1)) : shaded (row - 1) (col - 1) := by
  have isInner : inner row col := by
    rcases left_or_inner roles covered here above with isLeft | isInner
    · exact absurd before ((roles.left_iff row col).mp isLeft).2.2
    · exact isInner
  exact above_of_left_or_inner roles covered ((roles.inner_iff row col).mp isInner).2.1

theorem before_shaded (here : shaded row col) (above : shaded (row - 1) col)
    (first : shaded (row - 1) (col - 1)) : shaded row (col - 1) := by
  rcases left_or_inner roles covered here above with isLeft | isInner
  · rcases ((roles.left_iff row col).mp isLeft).2.1 with isCorner | isLeft
    · exact absurd first ((roles.corner_iff _ _).mp isCorner).2.1
    · exact absurd first ((roles.left_iff _ _).mp isLeft).2.2
  · rcases ((roles.inner_iff row col).mp isInner).2.1 with isLeft | isInner
    · exact ((roles.left_iff _ _).mp isLeft).1
    · exact covered.2 _ _ isInner

theorem above_shaded (here : shaded row col) (before : shaded row (col - 1))
    (first : shaded (row - 1) (col - 1)) : shaded (row - 1) col := by
  have turned := roles.swap.before_shaded covered.swap here before first
  exact turned

theorem last_shaded (onGrid : grid row col) (above : shaded (row - 1) col)
    (before : shaded row (col - 1)) (first : shaded (row - 1) (col - 1)) : shaded row col := by
  have beforeRole := left_or_inner roles covered before first
  have aboveRole := top_or_inner roles covered above first
  exact covered.2 row col ((roles.inner_iff row col).mpr ⟨onGrid, beforeRole, aboveRole⟩)

theorem bendless_of_covered (square : ∀ row col down along : Int, down.natAbs = 1 → along.natAbs = 1 →
    shaded (row + down) col → shaded row (col + along) → grid (row + down) (col + along)) :
    Bendless shaded := by
  intro row col down along one one' here below beside
  have onGrid := square row col down along one one' below beside
  -- the fourth point is any of the four, as the two neighbors of the corner lie
  rcases (by omega : down = 1 ∨ down = -1) with rfl | rfl <;>
    rcases (by omega : along = 1 ∨ along = -1) with rfl | rfl
  · refine last_shaded roles covered onGrid ?_ ?_ ?_ <;> simpa
  · refine before_shaded roles covered below ?_ ?_ <;> simpa
  · refine above_shaded roles covered beside ?_ ?_ <;> simpa
  · exact first_shaded roles covered here below beside

end Windows

section Bendless

variable (roles : Roles grid shaded corner left top inner) (bendless : Bendless shaded)
  (counted : ∀ row col, grid row col → 0 ≤ row ∧ 0 ≤ col)
include roles bendless counted

theorem shaded_of_inner (distance : Nat) : ∀ row col : Int, row + col = distance → inner row col →
    shaded row col ∧ shaded (row - 1) col ∧ shaded row (col - 1) := by
  induction distance using Nat.strongRecOn with
  | ind distance ih =>
    intro row col far isInner
    obtain ⟨onGrid, beforeRole, aboveRole⟩ := (roles.inner_iff row col).mp isInner
    have bounds := counted row col onGrid
    have before : shaded row (col - 1) ∧ shaded (row - 1) (col - 1) := by
      rcases beforeRole with isLeft | isInner
      · obtain ⟨here, either, _⟩ := (roles.left_iff _ _).mp isLeft
        refine ⟨here, ?_⟩
        rcases either with isCorner | isLeft
        · exact ((roles.corner_iff _ _).mp isCorner).1
        · exact ((roles.left_iff _ _).mp isLeft).1
      · have onGrid := counted _ _ ((roles.inner_iff _ _).mp isInner).1
        have found := ih (distance - 1) (by omega) row (col - 1) (by omega) isInner
        exact ⟨found.1, found.2.1⟩
    have above : shaded (row - 1) col := by
      rcases aboveRole with isTop | isInner
      · exact ((roles.top_iff _ _).mp isTop).1
      · have onGrid := counted _ _ ((roles.inner_iff _ _).mp isInner).1
        exact (ih (distance - 1) (by omega) (row - 1) col (by omega) isInner).1
    have window := bendless (row - 1) (col - 1) 1 1 rfl rfl before.2 (by simpa using before.1)
      (by simpa using above)
    rw [Int.sub_add_cancel, Int.sub_add_cancel] at window
    exact ⟨window, above, before.1⟩

omit counted in
theorem left_of_due (here : shaded row col) (noBefore : ¬ shaded row (col - 1)) (above : shaded (row - 1) col)
    (found : Due shaded corner left top inner (row - 1) col) : left row col := by
  refine (roles.left_iff row col).mpr ⟨here, ?_, noBefore⟩
  have noFirst : ¬ shaded (row - 1) (col - 1) := by
    intro first
    have window := bendless (row - 1) col 1 (-1) rfl rfl above (by simpa using here) first
    rw [Int.sub_add_cancel] at window
    exact noBefore window
  by_cases higher : shaded (row - 1 - 1) col
  · exact .inr (found.isLeft noFirst higher)
  · exact .inl (found.isCorner noFirst higher)

theorem due_of_shaded (within : ∀ row col, shaded row col → grid row col) (distance : Nat) :
    ∀ row col : Int, row + col = distance → shaded row col →
      Due shaded corner left top inner row col := by
  induction distance using Nat.strongRecOn with
  | ind distance ih =>
    intro row col far here
    have nearer : ∀ row' col', shaded row' col' → row' + col' = row + col - 1 →
        Due shaded corner left top inner row' col' := by
      intro row' col' shaded' near
      have bounds := counted row' col' (within row' col' shaded')
      exact ih (distance - 1) (by omega) row' col' (by omega) shaded'
    refine ⟨fun noBefore noAbove => ?_, fun noBefore above => ?_, fun before noAbove => ?_,
      fun before above => ?_⟩
    · exact (roles.corner_iff row col).mpr ⟨here, noBefore, noAbove⟩
    · exact left_of_due roles bendless here noBefore above (nearer (row - 1) col above (by omega))
    · have turned := (nearer row (col - 1) before (by omega)).swap
      exact roles.swap.left_of_due bendless.swap here noAbove before turned
    · have first := bendless row col (-1) (-1) rfl rfl here above before
      have foundBefore := nearer row (col - 1) before (by omega)
      have foundAbove := nearer (row - 1) col above (by omega)
      refine (roles.inner_iff row col).mpr ⟨within row col here, ?_, ?_⟩
      · by_cases further : shaded row (col - 1 - 1)
        · exact .inr (foundBefore.isInner further first)
        · exact .inl (foundBefore.isLeft further first)
      · by_cases higher : shaded (row - 1 - 1) col
        · exact .inr (foundAbove.isInner first higher)
        · exact .inl (foundAbove.isTop first higher)

theorem covered_of_bendless (within : ∀ row col, shaded row col → grid row col) :
    Covered shaded corner left top inner := by
  constructor
  · intro row col here
    have bounds := counted row col (within row col here)
    have found := roles.due_of_shaded bendless counted within (row + col).toNat row col (by omega) here
    by_cases before : shaded row (col - 1) <;> by_cases above : shaded (row - 1) col
    · exact .inr (.inr (.inr (found.isInner before above)))
    · exact .inr (.inr (.inl (found.isTop before above)))
    · exact .inr (.inl (found.isLeft before above))
    · exact .inl (found.isCorner before above)
  · intro row col isInner
    have bounds := counted row col ((roles.inner_iff row col).mp isInner).1
    exact (roles.shaded_of_inner bendless counted (row + col).toNat row col (by omega) isInner).1

end Bendless

-- where a set nowhere bends, the shaded points below a corner and beside it have the roles of an edge
theorem left_of_corner (roles : Roles grid shaded corner left top inner) (bendless : Bendless shaded)
    (isCorner : corner row col) (below : shaded (row + 1) col) : left (row + 1) col := by
  obtain ⟨here, noBefore, _⟩ := (roles.corner_iff row col).mp isCorner
  refine (roles.left_iff _ _).mpr ⟨below, .inl (by rwa [Int.add_sub_cancel]), fun first => noBefore ?_⟩
  have window := bendless (row + 1) col (-1) (-1) rfl rfl below (by rwa [Int.add_neg_cancel_right]) first
  rwa [Int.add_neg_cancel_right] at window

theorem top_of_corner (roles : Roles grid shaded corner left top inner) (bendless : Bendless shaded)
    (isCorner : corner row col) (beside : shaded row (col + 1)) : top row (col + 1) := by
  have turned := roles.swap.left_of_corner bendless.swap isCorner beside
  exact turned

/-- Roles cover a set in a grid exactly if it nowhere bends. -/
theorem covered_iff (roles : Roles grid shaded corner left top inner)
    (square : ∀ row col down along : Int, grid (row + down) col → grid row (col + along) →
      grid (row + down) (col + along))
    (counted : ∀ row col, grid row col → 0 ≤ row ∧ 0 ≤ col)
    (within : ∀ row col, shaded row col → grid row col) :
    Covered shaded corner left top inner ↔ Bendless shaded := by
  refine ⟨fun covered => ?_, fun bendless => roles.covered_of_bendless bendless counted within⟩
  apply roles.bendless_of_covered covered
  intro row col down along _ _ below beside
  exact square row col down along (within _ _ below) (within _ _ beside)

end Roles

end GridPuzzle.Plane
