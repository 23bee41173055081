import Mathlib.Init

/-!
Sets and links of the plane. A set bends where a window of two rows and two columns holds three of its points
and not the fourth. Where the set nowhere bends, or links close all windows at whose corners they meet, a
path between two points leads to every point of the box that they span.
-/
namespace GridPuzzle.Plane

/-- Where a point is shaded with one neighbor above or below and one beside it, so is the fourth point of
the window. -/
def Bendless (shaded : Int → Int → Prop) : Prop :=
  ∀ row col down along : Int, down.natAbs = 1 → along.natAbs = 1 → shaded row col →
    shaded (row + down) col → shaded row (col + along) → shaded (row + down) (col + along)

/-- A point with one neighbor above or below and one beside it, where the fourth point of their window is
missing. -/
structure BendsAt (shaded : Int → Int → Prop) (row col down along : Int) : Prop where
  upright : down.natAbs = 1
  level : along.natAbs = 1
  here : shaded row col
  below : shaded (row + down) col
  beside : shaded row (col + along)
  missing : ¬ shaded (row + down) (col + along)

/-- A path of shaded points, each beside the one before it. -/
inductive Reach (shaded : Int → Int → Prop) (row col : Int) : Int → Int → Prop
  | start (here : shaded row col) : Reach shaded row col row col
  | step {r c r' c' : Int} (before : Reach shaded row col r c) (here : shaded r' c')
      (beside : (r - r').natAbs + (c - c').natAbs = 1) : Reach shaded row col r' c'

def Between (first last number : Int) : Prop :=
  (first ≤ number ∧ number ≤ last) ∨ (last ≤ number ∧ number ≤ first)

/-- Links join points beside each other. Where one goes up or down and one to the side, two more join their
ends to the fourth point of the window. -/
structure Squared (link : Int → Int → Int → Int → Prop) : Prop where
  beside : ∀ {r c r' c'}, link r c r' c' → (r - r').natAbs + (c - c').natAbs = 1
  back : ∀ {r c r' c'}, link r c r' c' → link r' c' r c
  square : ∀ {row col down along}, down.natAbs = 1 → along.natAbs = 1 → link row col (row + down) col →
    link row col row (col + along) →
      link (row + down) col (row + down) (col + along) ∧ link row (col + along) (row + down) (col + along)

/-- A path of links. -/
inductive Leads (link : Int → Int → Int → Int → Prop) (row col : Int) : Int → Int → Prop
  | start : Leads link row col row col
  | step {r c r' c' : Int} (before : Leads link row col r c) (linked : link r c r' c') :
      Leads link row col r' c'

/-- All points of the box that two points span are reached, and those beside each other are linked. -/
structure Boxed (link : Int → Int → Int → Int → Prop) (row col r c : Int) : Prop where
  reached : ∀ i j, Between row r i → Between col c j → Leads link row col i j
  meshed : ∀ i j i' j', Between row r i → Between col c j → Between row r i' → Between col c j' →
    (i - i').natAbs + (j - j').natAbs = 1 → link i j i' j'

section Links

variable {link : Int → Int → Int → Int → Prop} {row col r c r' c' : Int}

theorem Leads.trans (first : Leads link row col r c) (second : Leads link r c r' c') :
    Leads link row col r' c' := by
  induction second with
  | start => exact first
  | step _ linked ih => exact .step ih linked

theorem Leads.symm (squared : Squared link) (leads : Leads link row col r c) : Leads link r c row col := by
  induction leads with
  | start => exact .start
  | step _ linked ih => exact (Leads.step .start (squared.back linked)).trans ih

-- a step down is a step to the side in the plane with rows and columns swapped
theorem Squared.swap (squared : Squared link) : Squared fun r c r' c' => link c r c' r' where
  beside linked := (Nat.add_comm _ _).trans (squared.beside linked)
  back linked := squared.back linked
  square one one' below beside := (squared.square one' one beside below).symm

theorem Leads.swap (leads : Leads link row col r c) : Leads (fun r c r' c' => link c r c' r') col row c r := by
  induction leads with
  | start => exact .start
  | step _ linked ih => exact .step ih linked

theorem Boxed.swap (boxed : Boxed link row col r c) : Boxed (fun r c r' c' => link c r c' r') col row c r where
  reached i j inRow inCol := (boxed.reached j i inCol inRow).swap
  meshed i j i' j' inRow inCol inRow' inCol' near :=
    boxed.meshed j i j' i' inCol inRow inCol' inRow' ((Nat.add_comm _ _).trans near)

/-- A link out of the box carries along the points of its last column: each has such a link, as the next one
has it and lies in the same window. -/
private theorem sweep (squared : Squared link) {along : Int} (one : along.natAbs = 1)
    (boxed : Boxed link row col r c) (inside : Between col c c) (stepped : link r c r (c + along))
    (distance : Nat) : ∀ i, Between row r i → (i - r).natAbs = distance → link i c i (c + along) := by
  induction distance with
  | zero =>
    intro i _ here
    rw [show i = r by omega]
    exact stepped
  | succ distance ih =>
    intro i between far
    obtain ⟨down, single, between', near⟩ : ∃ down : Int, down.natAbs = 1 ∧
        Between row r (i - down) ∧ (i - down - r).natAbs = distance := by
      unfold Between at *
      by_cases above : i < r
      · exact ⟨-1, rfl, by omega, by omega⟩
      · exact ⟨1, rfl, by omega, by omega⟩
    have upright := boxed.meshed (i - down) c (i - down + down) c between' inside (by simpa using between)
      inside (by omega)
    have corner := (squared.square single one upright (ih _ between' near)).1
    rw [Int.sub_add_cancel] at corner
    exact corner

private theorem boxed_beside (squared : Squared link) {next : Int} (boxed : Boxed link row col r c)
    (stepped : link r c r next) : Boxed link row col r next := by
  have one : (next - c).natAbs = 1 := by have beside := squared.beside stepped; omega
  have last : c + (next - c) = next := by omega
  have swept {i : Int} (inRow : Between row r i) : link i c i next := by
    have found := sweep squared one boxed (by unfold Between; omega) (last.symm ▸ stepped) _ i inRow rfl
    rwa [last] at found
  have upright {i i' : Int} (inRow : Between row r i) (inRow' : Between row r i')
      (near : (i - i').natAbs = 1) : link i next i' next := by
    have turn : i + (i' - i) = i' := by omega
    have before := boxed.meshed i c i' c inRow (by unfold Between; omega) inRow' (by unfold Between; omega)
      (by omega)
    have found := (squared.square (by omega) one (turn.symm ▸ before) (last.symm ▸ swept inRow)).2
    rwa [last, turn] at found
  refine ⟨fun i j inRow inCol => ?_, fun i j i' j' inRow inCol inRow' inCol' near => ?_⟩
  · by_cases old : Between col c j
    · exact boxed.reached i j inRow old
    · obtain rfl : j = next := by unfold Between at inCol old; omega
      exact .step (boxed.reached i c inRow (by unfold Between; omega)) (swept inRow)
  · by_cases old : Between col c j <;> by_cases old' : Between col c j'
    · exact boxed.meshed i j i' j' inRow old inRow' old' near
    · obtain rfl : j' = next := by unfold Between at inCol' old'; omega
      obtain ⟨rfl, rfl⟩ : i = i' ∧ j = c := by unfold Between at *; omega
      exact swept inRow
    · obtain rfl : j = next := by unfold Between at inCol old; omega
      obtain ⟨rfl, rfl⟩ : i = i' ∧ j' = c := by unfold Between at *; omega
      exact squared.back (swept inRow)
    · obtain rfl : j = next := by unfold Between at inCol old; omega
      obtain rfl : j' = j := by unfold Between at inCol' old'; omega
      exact upright inRow inRow' (by omega)

/-- Between two points that squared links join, no point and no link of the box is missing. -/
theorem Leads.boxed (squared : Squared link) (leads : Leads link row col r c) : Boxed link row col r c := by
  induction leads with
  | start =>
    refine ⟨fun i j inRow inCol => ?_, fun i j i' j' inRow inCol inRow' inCol' near => ?_⟩
    · unfold Between at inRow inCol
      rw [show i = row by omega, show j = col by omega]
      exact .start
    · unfold Between at *
      omega
  | @step r c r' c' _ linked ih =>
    have beside := squared.beside linked
    by_cases level : r = r'
    · subst level
      exact boxed_beside squared ih linked
    · obtain rfl : c = c' := by omega
      exact (boxed_beside squared.swap ih.swap linked).swap

/-- What squared links lead to is all of the box that these points span. -/
theorem Leads.fill (squared : Squared link) {top c₁ bottom c₂ r₁ left r₂ right : Int}
    (toTop : Leads link row col top c₁) (toBottom : Leads link row col bottom c₂)
    (toLeft : Leads link row col r₁ left) (toRight : Leads link row col r₂ right)
    (inRow : Between top bottom r) (inCol : Between left right c) : Leads link row col r c := by
  -- the point's row is met in the column of the start, and its column in the row of the start
  have inColumn : Leads link row col r col := by
    have either : Between row top r ∨ Between row bottom r := by unfold Between at *; omega
    rcases either with upper | lower
    · exact (toTop.boxed squared).reached r col upper (by unfold Between; omega)
    · exact (toBottom.boxed squared).reached r col lower (by unfold Between; omega)
  have inLine : Leads link row col row c := by
    have either : Between col left c ∨ Between col right c := by unfold Between at *; omega
    rcases either with before | after
    · exact (toLeft.boxed squared).reached row c (by unfold Between; omega) before
    · exact (toRight.boxed squared).reached row c (by unfold Between; omega) after
  have across := (inColumn.symm squared).trans inLine
  exact inColumn.trans ((across.boxed squared).reached r c (by unfold Between; omega) (by unfold Between; omega))

end Links

variable {shaded : Int → Int → Prop} {row col r c : Int}

theorem bendless_iff : Bendless shaded ↔ ∀ row col down along, ¬ BendsAt shaded row col down along := by
  apply Iff.intro
  · intro bendless row col down along bends
    exact bends.missing (bendless row col down along bends.upright bends.level bends.here bends.below bends.beside)
  · intro none row col down along one one' here below beside
    apply Classical.byContradiction
    intro missing
    exact none row col down along ⟨one, one', here, below, beside, missing⟩

theorem Reach.ends_shaded (reach : Reach shaded row col r c) : shaded r c := by
  cases reach with
  | start here => exact here
  | step _ here _ => exact here

theorem Reach.trans {r' c' : Int} (first : Reach shaded row col r c) (second : Reach shaded r c r' c') :
    Reach shaded row col r' c' := by
  induction second with
  | start _ => exact first
  | step _ here beside ih => exact .step ih here beside

theorem Reach.symm (reach : Reach shaded row col r c) : Reach shaded r c row col := by
  induction reach with
  | start here => exact .start here
  | step before here beside ih =>
    have back := Reach.step (.start here) before.ends_shaded (by omega)
    exact back.trans ih

/-- Shaded points beside each other are linked. -/
def Links (shaded : Int → Int → Prop) (r c r' c' : Int) : Prop :=
  shaded r c ∧ shaded r' c' ∧ (r - r').natAbs + (c - c').natAbs = 1

theorem Bendless.squared (bendless : Bendless shaded) : Squared (Links shaded) where
  beside linked := linked.2.2
  back linked := ⟨linked.2.1, linked.1, by have near := linked.2.2; omega⟩
  square one one' below beside := by
    have fourth := bendless _ _ _ _ one one' below.1 below.2.1 beside.2.1
    exact ⟨⟨below.2.1, fourth, by omega⟩, ⟨beside.2.1, fourth, by omega⟩⟩

theorem reach_iff : Reach shaded row col r c ↔ shaded row col ∧ Leads (Links shaded) row col r c := by
  constructor
  · intro reach
    induction reach with
    | start here => exact ⟨here, .start⟩
    | step before here beside ih => exact ⟨ih.1, .step ih.2 ⟨before.ends_shaded, here, beside⟩⟩
  · intro both
    obtain ⟨first, leads⟩ := both
    induction leads with
    | start => exact .start first
    | step _ linked ih => exact .step ih linked.2.1 linked.2.2

/-- What a path without bends around it reaches is all of the box that these points span. -/
theorem Reach.fill (bendless : Bendless shaded) {top c₁ bottom c₂ r₁ left r₂ right : Int}
    (toTop : Reach shaded row col top c₁) (toBottom : Reach shaded row col bottom c₂)
    (toLeft : Reach shaded row col r₁ left) (toRight : Reach shaded row col r₂ right)
    (inRow : Between top bottom r) (inCol : Between left right c) :
    Reach shaded row col r c := by
  rw [reach_iff] at *
  exact ⟨toTop.1, toTop.2.fill bendless.squared toBottom.2 toLeft.2 toRight.2 inRow inCol⟩

end GridPuzzle.Plane
