import Mathlib.Tactic.ByContra
import GridPuzzle.Proofs.Plane

/-!
Walls on the left and the top sides of points. Points joined without a wall agree on the walls beside their
join exactly if what walls enclose are full boxes without walls in them, and then each point of the grid has
the role that its own walls ask for.
-/
namespace GridPuzzle.Plane

structure Sheet where
  grid : Int → Int → Prop
  left : Int → Int → Prop
  top : Int → Int → Prop

namespace Sheet

variable {sheet : Sheet} {row col r c r' c' : Int}

/-- Rows and columns change places, and so do the two kinds of walls. -/
def swap (sheet : Sheet) : Sheet :=
  ⟨fun r c => sheet.grid c r, fun r c => sheet.top c r, fun r c => sheet.left c r⟩

/-- The points lie beside each other on the grid, and no wall stands between them. -/
def Opens (sheet : Sheet) (r c r' c' : Int) : Prop :=
  (sheet.grid r c ∧ sheet.grid r' c') ∧
    ((r = r' ∧ (c - c').natAbs = 1 ∧ ¬ sheet.left r (max c c')) ∨
      (c = c' ∧ (r - r').natAbs = 1 ∧ ¬ sheet.top (max r r') c))

/-- The grid is a box with walls on its border. -/
structure Fenced (sheet : Sheet) : Prop where
  crossing : ∀ {r c r' c'}, sheet.grid r c → sheet.grid r' c' → sheet.grid r c'
  left : ∀ {r c}, ¬ (sheet.grid r (c - 1) ↔ sheet.grid r c) → sheet.left r c
  top : ∀ {r c}, ¬ (sheet.grid (r - 1) c ↔ sheet.grid r c) → sheet.top r c

/-- Points of one row that are joined without a wall agree on the walls above them and below. -/
def Level (sheet : Sheet) : Prop :=
  ∀ r c, sheet.grid r c → sheet.grid r (c + 1) → ¬ sheet.left r (c + 1) →
    (sheet.top r c ↔ sheet.top r (c + 1)) ∧ (sheet.top (r + 1) c ↔ sheet.top (r + 1) (c + 1))

def Aligned (sheet : Sheet) : Prop := sheet.Level ∧ sheet.swap.Level

theorem opens_swap (sheet : Sheet) : sheet.swap.Opens = fun r c r' c' => sheet.Opens c r c' r' := by
  funext r c r' c'
  exact propext (and_congr_right fun _ => or_comm)

theorem Opens.symm (opens : sheet.Opens r c r' c') : sheet.Opens r' c' r c := by
  obtain ⟨⟨here, next⟩, ⟨rfl, near, free⟩ | ⟨rfl, near, free⟩⟩ := opens
  · exact ⟨⟨next, here⟩, .inl ⟨rfl, by omega, Int.max_comm c c' ▸ free⟩⟩
  · exact ⟨⟨next, here⟩, .inr ⟨rfl, by omega, Int.max_comm r r' ▸ free⟩⟩

theorem Opens.beside (opens : sheet.Opens r c r' c') : (r - r').natAbs + (c - c').natAbs = 1 := by
  rcases opens.2 with ⟨level, near, _⟩ | ⟨upright, near, _⟩ <;> omega

theorem Opens.no_left (opens : sheet.Opens r c r c') : ¬ sheet.left r (max c c') := by
  rcases opens.2 with ⟨_, _, free⟩ | ⟨_, near, _⟩
  · exact free
  · omega

theorem Opens.no_top (opens : sheet.Opens r c r' c) : ¬ sheet.top (max r r') c := by
  rcases opens.2 with ⟨_, near, _⟩ | ⟨_, _, free⟩
  · omega
  · exact free

theorem Fenced.swap (fenced : sheet.Fenced) : sheet.swap.Fenced :=
  ⟨fun first second => fenced.crossing second first, fenced.top, fenced.left⟩

theorem Level.beside (level : sheet.Level) {along down : Int} (one : along.natAbs = 1) (one' : down.natAbs = 1)
    (opens : sheet.Opens r c r (c + along)) :
    sheet.top (max r (r + down)) c ↔ sheet.top (max r (r + down)) (c + along) := by
  have agree {c : Int} (here : sheet.grid r c) (next : sheet.grid r (c + 1)) (free : ¬ sheet.left r (c + 1)) :
      sheet.top (max r (r + down)) c ↔ sheet.top (max r (r + down)) (c + 1) := by
    obtain rfl | rfl : down = 1 ∨ down = -1 := by omega
    · rw [Int.max_eq_right (by omega)]
      exact (level r c here next free).2
    · rw [Int.max_eq_left (by omega)]
      exact (level r c here next free).1
  have free := opens.no_left
  obtain ⟨⟨here, next⟩, _⟩ := opens
  obtain rfl | rfl : along = 1 ∨ along = -1 := by omega
  · rw [Int.max_eq_right (by omega)] at free
    exact agree here next free
  · rw [Int.max_eq_left (by omega)] at free
    have back := agree next (by rwa [Int.neg_add_cancel_right]) (by rwa [Int.neg_add_cancel_right])
    rw [Int.neg_add_cancel_right] at back
    exact back.symm

theorem Aligned.squared (aligned : sheet.Aligned) (fenced : sheet.Fenced) : Squared sheet.Opens where
  beside := Opens.beside
  back := Opens.symm
  square := by
    intro row col down along one one' below beside
    have fourth := fenced.crossing below.1.2 beside.1.2
    have turned : sheet.swap.Opens col row col (row + down) := by rwa [opens_swap]
    have lefts := aligned.2.beside one one' turned
    have tops := aligned.1.beside one' one beside
    constructor
    · exact ⟨⟨below.1.2, fourth⟩, .inl ⟨rfl, by omega, mt lefts.mpr beside.no_left⟩⟩
    · exact ⟨⟨beside.1.2, fourth⟩, .inr ⟨rfl, by omega, mt tops.mpr below.no_top⟩⟩

/-- What walls enclose has the points where its rows and columns cross, and no wall between its points. -/
structure Whole (sheet : Sheet) : Prop where
  crossing : ∀ {row col r c r' c'}, sheet.grid row col → Leads sheet.Opens row col r c →
    Leads sheet.Opens row col r' c' → Leads sheet.Opens row col r c'
  opens : ∀ {row col r c}, sheet.grid row col → Leads sheet.Opens row col r c →
    (row - r).natAbs + (col - c).natAbs = 1 → sheet.Opens row col r c

theorem Whole.swap (whole : sheet.Whole) : sheet.swap.Whole := by
  have turn {row col r c : Int} (leads : Leads sheet.swap.Opens row col r c) :
      Leads sheet.Opens col row c r := by
    rw [opens_swap] at leads
    exact leads.swap
  refine ⟨fun here first second => ?_, fun here leads near => ?_⟩
  · rw [opens_swap]
    exact (whole.crossing here (turn second) (turn first)).swap
  · rw [opens_swap]
    exact whole.opens here (turn leads) ((Nat.add_comm _ _).trans near)

theorem Whole.no_top (whole : sheet.Whole) (fenced : sheet.Fenced) {down : Int} (one : down.natAbs = 1)
    (opens : sheet.Opens r c r c') (free : ¬ sheet.top (max r (r + down)) c) :
    ¬ sheet.top (max r (r + down)) c' := by
  have onGrid : sheet.grid (r + down) c := by
    by_contra off
    obtain rfl | rfl : down = 1 ∨ down = -1 := by omega
    · rw [show max r (r + 1) = r + 1 by omega] at free
      refine free (fenced.top fun same => off (same.mp ?_))
      rw [Int.add_sub_cancel]
      exact opens.1.1
    · rw [show max r (r + -1) = r by omega] at free
      exact free (fenced.top fun same => off (same.mpr opens.1.1))
  have upright : sheet.Opens r c (r + down) c := ⟨⟨opens.1.1, onGrid⟩, .inr ⟨rfl, by omega, free⟩⟩
  -- the next point leads over this one to the one behind its side, so that its own neighbor there is reached
  have leads := Leads.step (.step .start opens.symm) upright
  have across := whole.crossing opens.1.2 leads .start
  exact (whole.opens opens.1.2 across (by omega)).no_top

theorem Whole.level (whole : sheet.Whole) (fenced : sheet.Fenced) : sheet.Level := by
  intro r c here next free
  have opens : sheet.Opens r c r (c + 1) :=
    ⟨⟨here, next⟩, .inl ⟨rfl, by omega, by rwa [Int.max_eq_right (by omega)]⟩⟩
  have agree {down : Int} (one : down.natAbs = 1) :
      sheet.top (max r (r + down)) c ↔ sheet.top (max r (r + down)) (c + 1) :=
    not_iff_not.mp ⟨whole.no_top fenced one opens, whole.no_top fenced one opens.symm⟩
  have above : max r (r + -1) = r := by omega
  have below : max r (r + 1) = r + 1 := by omega
  exact ⟨above ▸ agree rfl, below ▸ agree rfl⟩

theorem Whole.aligned (whole : sheet.Whole) (fenced : sheet.Fenced) : sheet.Aligned :=
  ⟨whole.level fenced, whole.swap.level fenced.swap⟩

/-- The four roles, as walls and each other make them. -/
structure Roles (sheet : Sheet) (corner left top inner : Int → Int → Prop) : Prop where
  corner_iff : ∀ r c, corner r c ↔ sheet.grid r c ∧ sheet.left r c ∧ sheet.top r c
  left_iff : ∀ r c, left r c ↔
    sheet.grid r c ∧ sheet.left r c ∧ ¬ sheet.top r c ∧ (corner (r - 1) c ∨ left (r - 1) c)
  top_iff : ∀ r c, top r c ↔
    sheet.grid r c ∧ sheet.top r c ∧ ¬ sheet.left r c ∧ (corner r (c - 1) ∨ top r (c - 1))
  inner_iff : ∀ r c, inner r c ↔ sheet.grid r c ∧ ¬ sheet.left r c ∧ ¬ sheet.top r c ∧
    (left r (c - 1) ∨ inner r (c - 1)) ∧ (top (r - 1) c ∨ inner (r - 1) c)

/-- The point has the role that its walls ask for. -/
structure Due (sheet : Sheet) (corner left top inner : Int → Int → Prop) (r c : Int) : Prop where
  isCorner : sheet.left r c → sheet.top r c → corner r c
  isLeft : sheet.left r c → ¬ sheet.top r c → left r c
  isTop : ¬ sheet.left r c → sheet.top r c → top r c
  isInner : ¬ sheet.left r c → ¬ sheet.top r c → inner r c

section Aligned

variable {corner left top inner : Int → Int → Prop} (roles : sheet.Roles corner left top inner)
  (fenced : sheet.Fenced) (aligned : sheet.Aligned)

include fenced in
theorem Fenced.above (here : sheet.grid r c) (free : ¬ sheet.top r c) : sheet.Opens r c (r - 1) c := by
  have onGrid : sheet.grid (r - 1) c := by
    by_contra off
    exact free (fenced.top fun same => off (same.mpr here))
  exact ⟨⟨here, onGrid⟩, .inr ⟨rfl, by omega, by rwa [show max r (r - 1) = r by omega]⟩⟩

include fenced aligned in
/-- A point without a wall above has a left wall if the point above has one. -/
theorem Aligned.left_above (here : sheet.grid r c) (free : ¬ sheet.top r c) :
    sheet.grid (r - 1) c ∧ (sheet.left r c ↔ sheet.left (r - 1) c) := by
  have opens := fenced.above here free
  have turned : sheet.swap.Opens c r c (r + -1) := by
    rw [opens_swap]
    exact opens
  have single : (-1 : Int).natAbs = 1 := rfl
  have agree := aligned.2.beside single single turned
  rw [show max c (c + -1) = c by omega] at agree
  exact ⟨opens.1.2, agree⟩

include fenced aligned in
theorem Aligned.top_before (here : sheet.grid r c) (free : ¬ sheet.left r c) :
    sheet.grid r (c - 1) ∧ (sheet.top r c ↔ sheet.top r (c - 1)) := by
  have turned : sheet.swap.Aligned := ⟨aligned.2, aligned.1⟩
  exact turned.left_above fenced.swap here free

include roles fenced aligned

theorem Roles.due (counted : ∀ r c, sheet.grid r c → 0 ≤ r ∧ 0 ≤ c) (distance : Nat) :
    ∀ r c : Int, r + c = distance → sheet.grid r c → Due sheet corner left top inner r c := by
  induction distance using Nat.strongRecOn with
  | ind distance ih =>
    intro r c far here
    have nearer {r' c' : Int} (onGrid : sheet.grid r' c') (near : r' + c' = r + c - 1) :
        Due sheet corner left top inner r' c' := by
      have bounds := counted r' c' onGrid
      exact ih (distance - 1) (by omega) r' c' (by omega) onGrid
    refine ⟨fun isLeft isTop => ?_, fun isLeft noTop => ?_, fun noLeft isTop => ?_, fun noLeft noTop => ?_⟩
    · exact (roles.corner_iff r c).mpr ⟨here, isLeft, isTop⟩
    · obtain ⟨above, agree⟩ := aligned.left_above fenced here noTop
      have found := nearer above (by omega)
      refine (roles.left_iff r c).mpr ⟨here, isLeft, noTop, ?_⟩
      by_cases higher : sheet.top (r - 1) c
      · exact .inl (found.isCorner (agree.mp isLeft) higher)
      · exact .inr (found.isLeft (agree.mp isLeft) higher)
    · obtain ⟨before, agree⟩ := aligned.top_before fenced here noLeft
      have found := nearer before (by omega)
      refine (roles.top_iff r c).mpr ⟨here, isTop, noLeft, ?_⟩
      by_cases further : sheet.left r (c - 1)
      · exact .inl (found.isCorner further (agree.mp isTop))
      · exact .inr (found.isTop further (agree.mp isTop))
    · obtain ⟨above, agreeLeft⟩ := aligned.left_above fenced here noTop
      obtain ⟨before, agreeTop⟩ := aligned.top_before fenced here noLeft
      have foundAbove := nearer above (by omega)
      have foundBefore := nearer before (by omega)
      refine (roles.inner_iff r c).mpr ⟨here, noLeft, noTop, ?_, ?_⟩
      · by_cases further : sheet.left r (c - 1)
        · exact .inl (foundBefore.isLeft further (mt agreeTop.mpr noTop))
        · exact .inr (foundBefore.isInner further (mt agreeTop.mpr noTop))
      · by_cases higher : sheet.top (r - 1) c
        · exact .inl (foundAbove.isTop (mt agreeLeft.mpr noLeft) higher)
        · exact .inr (foundAbove.isInner (mt agreeLeft.mpr noLeft) higher)

/-- On a grid whose walls are aligned, each point has a role. -/
theorem Roles.covers (counted : ∀ r c, sheet.grid r c → 0 ≤ r ∧ 0 ≤ c) (here : sheet.grid r c) :
    corner r c ∨ left r c ∨ top r c ∨ inner r c := by
  have bounds := counted r c here
  have found := roles.due fenced aligned counted (r + c).toNat r c (by omega) here
  by_cases isLeft : sheet.left r c <;> by_cases isTop : sheet.top r c
  · exact .inl (found.isCorner isLeft isTop)
  · exact .inr (.inl (found.isLeft isLeft isTop))
  · exact .inr (.inr (.inl (found.isTop isLeft isTop)))
  · exact .inr (.inr (.inr (found.isInner isLeft isTop)))

end Aligned

end Sheet

end GridPuzzle.Plane
